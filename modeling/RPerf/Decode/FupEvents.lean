import RPerf.Decode.Approach
import RPerf.Decode.TracePackets

/-!
# Events at the address of a FUP

A PTWRITE or EXSTOP packet with an IP, an MWAIT packet and a MODE.TSX packet have their
event reported at the address of the FUP packet that follows.
-/

namespace RPerf.Decode

open Lib Packets Code

def Fup.ahead (f : Fup) : FupKind → ℕ
  | .tx => 0
  | .ptw => f.setTxFlags.toNat
  | .mwait | .exstop => f.setTxFlags.toNat + f.setPtw.toNat

/-- The decoder has an event to return. -/
structure Reports (ev : FupKind) (x : UInt64) (log : List Event) (e : Decoder) : Prop where
  shows : ev.shows e.st.type = true
  fromIp : e.st.fromIp = x
  pending : ev.pending e.fup = false
  log : e.log = log

section

variable {ev : FupKind} {d : Decoder}

theorem fupEvent_reports (hp : ev.pending d.fup = true) (ha : d.fup.ahead ev = 0) :
    ∃ e, d.fupEvent = (true, e) ∧ Reports ev d.ip d.log e := by
  cases ev with
  | tx =>
    have htx : d.fup.setTxFlags = true := hp
    rw [Decoder.fupEvent, if_pos htx]
    exact ⟨_, rfl, rfl, rfl, rfl, rfl⟩
  | ptw =>
    have hptw : d.fup.setPtw = true := hp
    have htx : d.fup.setTxFlags = false := by simpa [Fup.ahead] using ha
    rw [Decoder.fupEvent, htx, if_neg Bool.false_ne_true, if_pos hptw]
    exact ⟨_, rfl, rfl, rfl, rfl, rfl⟩
  | mwait =>
    have hmwait : d.fup.setMwait = true := hp
    have hnone : d.fup.setTxFlags = false ∧ d.fup.setPtw = false := by simpa [Fup.ahead] using ha
    simp only [Decoder.fupEvent, hnone.1, hnone.2, Bool.false_eq_true, if_false, hmwait, if_true,
      Bool.true_or]
    split_ifs <;> exact ⟨_, rfl, rfl, rfl, rfl, rfl⟩
  | exstop =>
    have hexstop : d.fup.setExstop = true := hp
    have hnone : d.fup.setTxFlags = false ∧ d.fup.setPtw = false := by simpa [Fup.ahead] using ha
    have hkeep : (if d.fup.setMwait then d.mwaitEvent else d).fup.setExstop = true ∧
        (if d.fup.setMwait then d.mwaitEvent else d).ip = d.ip ∧
        (if d.fup.setMwait then d.mwaitEvent else d).log = d.log := by
      split_ifs <;> exact ⟨hexstop, rfl, rfl⟩
    simp only [Decoder.fupEvent, hnone.1, hnone.2, Bool.false_eq_true, if_false, hexstop,
      Bool.or_true]
    generalize (if d.fup.setMwait then d.mwaitEvent else d) = d₁ at hkeep ⊢
    obtain ⟨hset, hip, hlog⟩ := hkeep
    have hset' : (if d₁.fup.setPwre then d₁.pwreEvent else d₁).fup.setExstop = true := by
      split_ifs <;> exact hset
    rw [if_pos hset']
    refine ⟨_, rfl, rfl, ?_, rfl, ?_⟩
    · rw [← hip]
      split_ifs <;> rfl
    · rw [← hlog]
      split_ifs <;> rfl

theorem fupEvent_earlier (hp : ev.pending d.fup = true) {n : ℕ} (ha : d.fup.ahead ev = n + 1) :
    ∃ e, d.fupEvent = (true, e) ∧ ev.shows e.st.type = false ∧ ev.pending e.fup = true ∧
      e.fup.ahead ev = n ∧ e.ip = d.ip ∧ e.tracked = d.tracked := by
  by_cases htx : d.fup.setTxFlags = true
  · rw [Decoder.fupEvent, if_pos htx]
    cases ev with
    | tx => cases ha
    | ptw | mwait | exstop =>
      refine ⟨_, rfl, rfl, hp, ?_, rfl, rfl⟩
      simp only [Fup.ahead, htx, Bool.toNat_true, Bool.toNat_false] at ha ⊢
      omega
  · rw [Bool.not_eq_true] at htx
    cases ev with
    | tx => cases ha
    | ptw => simp [Fup.ahead, htx] at ha
    | mwait | exstop =>
      have hptw : d.fup.setPtw = true := by
        by_contra h
        rw [Bool.not_eq_true] at h
        simp [Fup.ahead, htx, h] at ha
      rw [Decoder.fupEvent, htx, if_neg Bool.false_ne_true, if_pos hptw]
      refine ⟨_, rfl, rfl, hp, ?_, rfl, rfl⟩
      simp only [Fup.ahead, htx, hptw, Bool.toNat_true, Bool.toNat_false] at ha ⊢
      omega

end

def Heard (ev : FupKind) (log : List Event) : Prop :=
  ∃ w p haveLastIp lastIp, Event.packet w p haveLastIp lastIp ∈ log ∧
    FupKind.ofPkt p.type = some ev

def Accounted (ev : FupKind) : List Event → Prop
  | [] => True
  | .returned st :: log => (ev.shows st.type = true → Heard ev log) ∧ Accounted ev log
  | _ :: log => Accounted ev log

def Since (ev : FupKind) (old : List Event) (P : List Event → Prop) (d : Decoder) : Prop :=
  ∃ recent, d.log = recent ++ old ∧ Accounted ev recent ∧ P recent ∧
    (ev.pending d.fup = true ∨ ev.shows d.st.type = true → Heard ev recent)

section

variable {ev : FupKind} {old log : List Event} {P : List Event → Prop} {d e : Decoder}

theorem Heard.cons (h : Heard ev log) (x : Event) : Heard ev (x :: log) := by
  obtain ⟨w, p, a, b, hmem, hp⟩ := h
  exact ⟨w, p, a, b, List.mem_cons_of_mem _ hmem, hp⟩

theorem Since.mono {Q : List Event → Prop} (h : Since ev old P d) (hPQ : ∀ l, P l → Q l)
    (hlog : e.log = d.log) (hpending : ev.pending e.fup = true → ev.pending d.fup = true)
    (hshows : ev.shows e.st.type = true → ev.shows d.st.type = true ∨ ev.pending d.fup = true) :
    Since ev old Q e := by
  obtain ⟨recent, hrecent, hacc, hP, hheard⟩ := h
  refine ⟨recent, hlog.trans hrecent, hacc, hPQ _ hP, ?_⟩
  rintro (hp | hs)
  · exact hheard (.inl (hpending hp))
  · exact hheard (hshows hs).symm

theorem Since.record {Q : List Event → Prop} (h : Since ev old P d) {x : Event}
    (hx : ∀ l, Accounted ev (x :: l) ↔ Accounted ev l) (hPQ : ∀ l, P l → Q (x :: l))
    (hlog : e.log = x :: d.log) (hfup : e.fup = d.fup) (htype : e.st.type = d.st.type) :
    Since ev old Q e := by
  obtain ⟨recent, hrecent, hacc, hP, hheard⟩ := h
  refine ⟨x :: recent, ?_, (hx recent).mpr hacc, hPQ _ hP, ?_⟩
  · rw [hlog, hrecent, List.cons_append]
  · rw [hfup, htype]
    exact fun h => (hheard h).cons x

abbrev Settled (ev : FupKind) (old : List Event) : Decoder → Prop := Since ev old fun _ => True

def AtHand (ev : FupKind) (old : List Event) (d : Decoder) : Prop :=
  Since ev old (fun recent => FupKind.ofPkt d.rd.packet.type = some ev → Heard ev recent) d

theorem AtHand.settled (h : AtHand ev old d) (hlog : e.log = d.log) (hfup : e.fup = d.fup)
    (hst : e.st = d.st) : Settled ev old e :=
  h.mono (fun _ _ => trivial) hlog (fun h => hfup ▸ h) fun h => .inl (hst ▸ h)

theorem Settled.fetched (h : Settled ev old d) (w : Walker) (fr : Fetch × Reader) :
    Settled ev old (d.fetched w fr).2 := by
  obtain ⟨f, rd⟩ := fr
  cases f with
  | ok => exact h.record (fun _ => Iff.rfl) (fun _ _ => trivial) rfl rfl rfl
  | nolink => exact h.record (fun _ => Iff.rfl) (fun _ _ => trivial) rfl rfl rfl
  | nodata | nomem | bad | overrun => exact h.mono (fun _ _ => trivial) rfl id .inl

theorem Settled.getNextPacket (h : Settled ev old d) (w : Walker) :
    Settled ev old (d.getNextPacket w).2 := by
  apply Settled.fetched
  exact h.record (fun _ => Iff.rfl) (fun _ _ => trivial) rfl rfl rfl

theorem Settled.atHand {w : Walker} (h : Settled ev old d) (hget : d.getNextPacket w = (.ok, e)) :
    AtHand ev old e := by
  obtain ⟨-, heq⟩ := Decoder.fetched_ok hget
  have henter : Settled ev old (d.note (.enter w d.rd)) :=
    h.record (fun _ => Iff.rfl) (fun _ _ => trivial) rfl rfl rfl
  exact henter.record (fun _ => Iff.rfl) (fun l _ hp => ⟨_, _, _, _, List.mem_cons_self, hp⟩)
    (by rw [heq]) (by rw [heq]) (by rw [heq])

theorem Loud.heard (h : Loud (Settled ev old) d) :
    ∃ recent, d.log = recent ++ old ∧ Accounted ev recent ∧ Heard ev recent := by
  obtain ⟨recent, hrecent, hacc, -, hheard⟩ := h
    { d with st.type := ⟨true, true, true, true, true, true, true, true, true⟩ } rfl rfl
  exact ⟨recent, hrecent, hacc, hheard (.inr (by cases ev <;> rfl))⟩

theorem closedSync_settled (cfg : Config) :
    ClosedSync cfg (some ev) (Settled ev old) (fun _ => AtHand ev old) fun _ => False where
  quiet hd hq := hd.mono (fun _ _ => trivial) hq.log (hq.pending ev rfl) (hq.shows ev rfl)
  quietJ hd hq := hd.mono (fun _ h => hq.rd ▸ h) hq.log (hq.pending ev rfl) (hq.shows ev rfl)
  lose hd _ _ := hd
  drop hd _ _ := hd.settled rfl rfl rfl
  ignore hd _ := hd.settled rfl rfl rfl
  unknown hd _ _ := hd.settled rfl rfl rfl
  expand hd _ _ _ := hd.settled rfl rfl rfl
  psb hd _ := hd.settled rfl rfl rfl
  time hd _ _ := hd.record (fun _ => Iff.rfl) (fun _ _ => trivial) rfl rfl rfl
  bug hd _ := hd.settled rfl rfl rfl
  event hk hd hp e ht _ := by
    obtain ⟨recent, hrecent, hacc, hheard, -⟩ := hd
    have hlog : e.log = _ := congrArg Tracked.log ht
    exact ⟨recent, hlog.trans hrecent, hacc, trivial, fun _ => hheard hp⟩
  fetch hd hget := hd.atHand hget
  fail {w d r} hd hget _ := .inl (hget ▸ hd.getNextPacket w)
  putBack hd := hd.record (fun _ => Iff.rfl) (fun _ _ => trivial) rfl rfl rfl
  mark {d d' _} _ hd hget e ht _ := by
    obtain ⟨recent, hrecent, hacc, hheard⟩ := hd.heard
    have hlog : e.log = d'.log := congrArg Tracked.log ht
    obtain ⟨-, heq⟩ := Decoder.fetched_ok hget
    refine ⟨.packet .trace d'.rd.packet d.haveLastIp d.lastIp :: .enter .trace d.rd :: recent,
      ?_, hacc, fun _ => (hheard.cons _).cons _, fun _ => (hheard.cons _).cons _⟩
    rw [hlog, heq]
    simp [Decoder.note, hrecent]
  forget hd := hd.mono (fun _ _ => trivial) rfl id .inl
  scan {d d'} hd _ _ hscan := by
    have hfetched := hd.fetched .scan d.rd.scanForPsb
    rw [Decoder.scanForPsb] at hscan
    rw [hscan] at hfetched
    exact hfetched.mono (fun _ _ => trivial) rfl id .inl
  scanFail {d r} hd hscan _ := .inl (hscan ▸ hd.fetched .scan d.rd.scanForPsb)

theorem startState_decode (d : Decoder) (cfg : Config) : d.startState.decode cfg = d.decode cfg :=
  rfl

theorem conclude_fup (cfg : Config) (r : Status × Decoder) :
    (Decoder.conclude cfg r).fup = r.2.fup := by
  simp only [Decoder.conclude, Decoder.note, Decoder.seeCbr]
  split_ifs <;> rfl

theorem conclude_shows (cfg : Config) (r : Status × Decoder) (ev : FupKind) :
    ev.shows (Decoder.conclude cfg r).st.type = ev.shows r.2.st.type := by
  simp only [Decoder.conclude, Decoder.note, Decoder.seeCbr]
  split_ifs <;> cases ev <;> rfl

theorem Settled.decode (h : Settled ev old d.startState) (cfg : Config) :
    Settled ev old (d.decode cfg) := by
  have hloop := (closedSync_settled cfg).decodeLoop (fun _ => False.elim) h
    (2 * d.startState.rd.unread + 3)
  rw [← startState_decode, Decoder.decode]
  generalize loop (Decoder.decodePass cfg) (fun d => (.overrun, d))
    (2 * d.startState.rd.unread + 3) d.startState = r at hloop ⊢
  obtain ⟨recent, hrecent, hacc, -, hheard⟩ := hloop
  refine ⟨.returned (Decoder.conclude cfg r).st :: recent, ?_, ⟨fun hs => ?_, hacc⟩, trivial, ?_⟩
  · rw [Decoder.conclude_log, hrecent, List.cons_append]
  · rw [conclude_shows] at hs
    exact hheard (.inr hs)
  · rw [conclude_fup, conclude_shows]
    exact fun h => (hheard h).cons _

theorem accounted_run (hp : ev.pending d.fup = false) (cfgs : List Config) :
    ∃ later, (d.run cfgs).log = later ++ d.log ∧ Accounted ev later := by
  have hstart : Settled ev d.log d.startState := by
    refine ⟨[], rfl, trivial, trivial, ?_⟩
    rintro (h | h)
    · rw [show d.startState.fup = d.fup from rfl, hp] at h
      cases h
    · cases ev <;> cases h
  cases cfgs with
  | nil => exact ⟨[], rfl, trivial⟩
  | cons cfg cfgs =>
    have hrun := Decoder.run_invariant (I := Settled ev d.log) cfgs
      (fun cfg _ e he =>
        Settled.decode (he.mono (fun _ _ => trivial) rfl id (by cases ev <;> nofun)) cfg)
      (hstart.decode cfg)
    obtain ⟨later, hlater, hacc, -⟩ := hrun
    exact ⟨later, hlater, hacc⟩

end

def FupKind.Announced (ev : FupKind) (d : Decoder) : Prop :=
  match ev with
  | .tx => d.rd.packet.type = .modeTsx ∧ d.pge = true ∧ d.rd.packet.payload &&& 2 = 0
  | .ptw => d.rd.packet.type = .ptwriteIp
  | .mwait => d.rd.packet.type = .mwait
  | .exstop => d.rd.packet.type = .exstopIp

/-- A call comes to the FUP of an event. -/
structure EventFup (cfg : Config) (ev : FupKind) (c : Decoder) (s : Bool × Decoder) : Prop where
  comesTo : ComesTo cfg c s
  type : s.2.rd.packet.type = .fup
  count : s.2.rd.packet.count ≠ 0
  announced : (∃ s₀, ev.Announced s₀.2 ∧ Decoder.tracePass cfg s₀ = .again s) ∨
    ev = .mwait ∧ s.2.fup.setMwait = true

section

variable {cfg : Config} {ev : FupKind} {c : Decoder} {s : Bool × Decoder}

variable {e : Decoder} {s₀ : Bool × Decoder} {log : List Event}

theorem expectFup_again {noTip : Bool} {d : Decoder} {mark : Decoder → Decoder}
    (hpacket : s₀.2.tracePacket cfg s₀.1 = d.expectFup noTip mark)
    (hpass : Decoder.tracePass cfg s₀ = .again s) (htype : s.2.rd.packet.type = .fup) :
    ∃ d', s = (true, mark d') := by
  rw [Decoder.tracePass, hpacket, Decoder.expectFup] at hpass
  rcases hget : d.getNextPacket .trace with ⟨st, d'⟩
  rw [hget] at hpass
  cases st
  case ok =>
    by_cases hfup : d'.rd.packet.type = .fup
    · simp only [if_pos hfup] at hpass
      cases hpass
      exact ⟨d', rfl⟩
    · simp only [if_neg hfup] at hpass
      cases hpass
      exact absurd htype hfup
  all_goals cases hpass

theorem modeTsx_again (hann : FupKind.tx.Announced s₀.2)
    (hpass : Decoder.tracePass cfg s₀ = .again s) (htype : s.2.rd.packet.type = .fup) :
    s.1 = true ∧ s.2.fup.setTxFlags = true := by
  obtain ⟨ht, hpge, habort⟩ := hann
  have hpacket : s₀.2.tracePacket cfg s₀.1 = s₀.2.modeTsxPacket s₀.1 := by
    simp only [Decoder.tracePacket, ht]
  rw [Decoder.tracePass, hpacket, Decoder.modeTsxPacket, if_neg (by simp [hpge])] at hpass
  rcases hget : s₀.2.getNextPacket .trace with ⟨st, d'⟩
  rw [hget] at hpass
  cases st
  case ok =>
    by_cases hfup : d'.rd.packet.type = .fup
    · simp only [if_pos hfup] at hpass
      cases hpass
      exact ⟨by simp [txFlagsOf, habort], rfl⟩
    · simp only [if_neg hfup] at hpass
      cases hpass
      exact absurd htype hfup
  all_goals cases hpass

theorem mwait_again (hann : s₀.2.rd.packet.type = .mwait)
    (hpass : Decoder.tracePass cfg s₀ = .again s) : s.2.fup.setMwait = true := by
  have hpacket : s₀.2.tracePacket cfg s₀.1 = .fetch s₀.1 s₀.2.mwaitPacket := by
    simp only [Decoder.tracePacket, hann]
  rw [Decoder.tracePass, hpacket] at hpass
  rcases hget : s₀.2.mwaitPacket.getNextPacket .trace with ⟨st, d'⟩
  simp only [hget] at hpass
  cases st
  case ok =>
    cases hpass
    obtain ⟨-, heq⟩ := Decoder.fetched_ok hget
    rw [heq]
    rfl
  all_goals cases hpass

theorem EventFup.waits (h : EventFup cfg ev c s) :
    ev.pending s.2.fup = true ∧ (s.1 || s.2.fup.setMwait) = true := by
  rcases h.announced with ⟨s₀, hann, hpass⟩ | ⟨rfl, hmwait⟩
  swap
  · exact ⟨hmwait, by simp [hmwait]⟩
  cases ev with
  | tx =>
    obtain ⟨hnoTip, hset⟩ := modeTsx_again hann hpass h.type
    exact ⟨hset, by simp [hnoTip]⟩
  | ptw =>
    have ht : s₀.2.rd.packet.type = .ptwriteIp := hann
    obtain ⟨d', rfl⟩ := expectFup_again (by simp only [Decoder.tracePacket, ht]; rfl) hpass h.type
    exact ⟨rfl, rfl⟩
  | mwait =>
    have hset := mwait_again hann hpass
    exact ⟨hset, by simp [hset]⟩
  | exstop =>
    have ht : s₀.2.rd.packet.type = .exstopIp := hann
    obtain ⟨d', rfl⟩ := expectFup_again (by simp only [Decoder.tracePacket, ht]; rfl) hpass h.type
    exact ⟨rfl, rfl⟩

variable {code : Program} {x : UInt64} {d : Decoder}

theorem walkFup_reports (hcode : cfg.walkInsn = code.walkInsn) (hx : d.lastIp ≠ 0)
    (happ : Approaches code cfg d.lastIp 0 d.ip d.smp d.now) (hp : ev.pending d.fup = true)
    (ha : d.fup.ahead ev = 0) : ∃ e, d.walkFup cfg = (.ok, e) ∧ Reports ev d.lastIp d.log e := by
  obtain ⟨insn, e, hwalk, hip, hpassed⟩ := walkInsn_arrives hcode hx happ
  obtain ⟨f, hevent, hreports⟩ := fupEvent_reports (d := e) (hpassed.fup ▸ hp) (hpassed.fup ▸ ha)
  refine ⟨f, by simp only [Decoder.walkFup, hwalk, hevent], ?_⟩
  have hlog : e.log = d.log := congrArg Tracked.log hpassed.tracked
  rw [hip, hlog] at hreports
  exact hreports

structure OnTheWay (code : Program) (cfg : Config) (ev : FupKind) (x : UInt64) (log : List Event)
    (e : Decoder) : Prop where
  lastIp : e.lastIp = x
  approaches : Approaches code cfg x 0 e.ip e.smp e.now
  pending : ev.pending e.fup = true
  ahead : e.fup.ahead ev = 0
  shows : ev.shows e.st.type = false
  log : e.log = log

theorem walkFup_onTheWay (hcode : cfg.walkInsn = code.walkInsn) (hmalloc : ∀ n, cfg.malloc n = true)
    (hx : d.lastIp ≠ 0) (hprog : d.prog.noProgress ≤ 1) {j : ℕ}
    (happ : Approaches code cfg d.lastIp j d.ip d.smp d.now) (hp : ev.pending d.fup = true)
    (ha : j + d.fup.ahead ev = 1) (hshows : ev.shows d.st.type = false) :
    ∃ e, d.walkFup cfg = (.ok, e) ∧ OnTheWay code cfg ev d.lastIp d.log e := by
  obtain ⟨rfl, hnone⟩ | ⟨rfl, hone⟩ :
      j = 1 ∧ d.fup.ahead ev = 0 ∨ j = 0 ∧ d.fup.ahead ev = 0 + 1 := by
    omega
  · obtain ⟨insn, e, hwalk, hpassed, happ⟩ := walkInsn_stops hcode hmalloc hprog happ
    have hsilent := Silent.walkInsn d cfg d.lastIp
    rw [hwalk] at hsilent
    refine ⟨e, by simp only [Decoder.walkFup, hwalk], ?_⟩
    refine ⟨congrArg Tracked.lastIp hpassed.tracked, happ, hpassed.fup ▸ hp,
      hpassed.fup ▸ hnone, ?_,
      congrArg Tracked.log hpassed.tracked⟩
    by_contra h
    rw [Bool.not_eq_false] at h
    simp [hsilent ev h] at hshows
  · obtain ⟨insn, e, hwalk, hip, hpassed⟩ := walkInsn_arrives hcode hx happ
    obtain ⟨f, hevent, hshows, hp', ha', hip', htracked⟩ :=
      fupEvent_earlier (d := e) (hpassed.fup ▸ hp) (hpassed.fup ▸ hone)
    have htracked' := htracked.trans hpassed.tracked
    refine ⟨f, by simp only [Decoder.walkFup, hwalk, hevent], congrArg Tracked.lastIp htracked', ?_,
      hp', ha', hshows, congrArg Tracked.log htracked'⟩
    rw [hip', hip]
    exact .arrives .here (by
      by_cases h : f.smp.due cfg f.now = 0
      · exact .inl h
      · exact .inr (Nat.pos_of_ne_zero fun h0 => h (UInt64.toNat_inj.mp h0)))

/-- The calls from this one on report the event exactly once. -/
def DeliversOnce (cfg : Config) (ev : FupKind) (x : UInt64) (log : List Event) (c : Decoder) :
    Prop :=
  ∃ (before : List State) (last : State),
    let e := c.run (List.replicate (before.length + 1) cfg)
    e.log = .returned last :: (before.map .returned ++ log) ∧
      (∀ st ∈ before, ev.shows st.type = false) ∧
      ev.shows last.type = true ∧ last.err = none ∧ last.fromIp = x ∧
      ∀ cfgs, ∃ later, (e.run cfgs).log = later ++ e.log ∧ Accounted ev later

theorem Reports.deliversOnce (before : List State)
    (h : Reports ev x (before.map .returned ++ log) e)
    (hbefore : ∀ st ∈ before, ev.shows st.type = false)
    (hrun : c.run (List.replicate (before.length + 1) cfg) = Decoder.conclude cfg (.ok, e)) :
    DeliversOnce cfg ev x log c := by
  have hst : (Decoder.conclude cfg (.ok, e)).st.err = none ∧
      (Decoder.conclude cfg (.ok, e)).st.fromIp = e.st.fromIp := by
    simp only [Decoder.conclude, Decoder.note, Decoder.seeCbr, ne_eq, not_true_eq_false, if_false]
    split_ifs <;> exact ⟨rfl, rfl⟩
  refine ⟨before, (Decoder.conclude cfg (.ok, e)).st, ?_⟩
  rw [hrun]
  refine ⟨?_, hbefore, ?_, hst.1, hst.2.trans h.fromIp, accounted_run ?_⟩
  · rw [Decoder.conclude_log, h.log]
  · rw [conclude_shows]
    exact h.shows
  · rw [conclude_fup]
    exact h.pending

theorem OnTheWay.conclude (h : OnTheWay code cfg ev x log e) (hstate : e.pktState = .fupNoTip) :
    ∃ st, ev.shows st.type = false ∧
      OnTheWay code cfg ev x (.returned st :: log) (Decoder.conclude cfg (.ok, e)) ∧
      (Decoder.conclude cfg (.ok, e)).pktState = .fupNoTip := by
  have hkept : (Decoder.conclude cfg (.ok, e)).ip = e.ip ∧
      (Decoder.conclude cfg (.ok, e)).smp = e.smp ∧ (Decoder.conclude cfg (.ok, e)).now = e.now ∧
      (Decoder.conclude cfg (.ok, e)).lastIp = e.lastIp ∧
      (Decoder.conclude cfg (.ok, e)).pktState = e.pktState := by
    simp only [Decoder.conclude, Decoder.note, Decoder.seeCbr, ne_eq, not_true_eq_false, if_false]
    split_ifs <;> first | exact ⟨rfl, rfl, rfl, rfl, rfl⟩ | simp_all [PktState.sampleTime]
  obtain ⟨hip, hsmp, hnow, hlast, hpkt⟩ := hkept
  have hshows := conclude_shows cfg (.ok, e) ev
  refine ⟨(Decoder.conclude cfg (.ok, e)).st, hshows.trans h.shows, ⟨hlast.trans h.lastIp, ?_, ?_,
    ?_, hshows.trans h.shows, ?_⟩, hpkt.trans hstate⟩
  · rw [hip, hsmp, hnow]
    exact h.approaches
  · rw [conclude_fup]
    exact h.pending
  · rw [conclude_fup]
    exact h.ahead
  · rw [Decoder.conclude_log, h.log]

theorem OnTheWay.decode (hcode : cfg.walkInsn = code.walkInsn) (hx : x ≠ 0)
    (h : OnTheWay code cfg ev x log c) (hstate : c.pktState = .fupNoTip) :
    ∃ e, c.decode cfg = Decoder.conclude cfg (.ok, e) ∧ Reports ev x log e := by
  obtain ⟨hlast, happ, hp, ha, -, hlog⟩ := h
  subst hlast hlog
  obtain ⟨e, hwalk, hreports⟩ := walkFup_reports (d := c.startState.enterSync) hcode hx happ hp ha
  have hpass : Decoder.decodePass cfg c = .leave (.ok, e) := by
    have hs : c.startState.pktState = .fupNoTip := hstate
    simp only [Decoder.decodePass, Decoder.resume, hs, hwalk]
  exact ⟨e, by rw [Decoder.decode, loop_of_leave _ hpass], hreports⟩

theorem EventFup.tracePass_eq (h : EventFup cfg ev c s) (hb : cfg.branchEnable = true)
    (hwalk : s.2.setLastIp.walkFup cfg = (.ok, e)) :
    Decoder.tracePass cfg s = .leave (.ok, { e with pktState := .fupNoTip }) := by
  obtain ⟨-, hnoTip⟩ := h.waits
  have hnoTip' : (s.1 || s.2.setLastIp.fup.setMwait) = true := hnoTip
  have hpacket : s.2.tracePacket cfg s.1 = s.2.fupPacket cfg s.1 := by
    simp only [Decoder.tracePacket, h.type]
  simp only [Decoder.tracePass, hpacket, Decoder.fupPacket, if_neg h.count, hb, not_true_eq_false,
    if_false, hwalk, hnoTip', if_true]

/-- The same if it does not. -/
theorem EventFup.tracePass_eq_of_not (h : EventFup cfg ev c s) (hb : ¬ cfg.branchEnable = true)
    (hevent : { s.2.setLastIp with ip := s.2.setLastIp.lastIp }.fupEvent = (true, e)) :
    Decoder.tracePass cfg s = .leave (.ok, e) := by
  have hpacket : s.2.tracePacket cfg s.1 = s.2.fupPacket cfg s.1 := by
    simp only [Decoder.tracePacket, h.type]
  simp only [Decoder.tracePass, hpacket, Decoder.fupPacket, if_neg h.count, if_pos hb, hevent]

/-- Nothing else waits or is returned before the address of the event is reached. -/
def Clear (cfg : Config) (ev : FupKind) (d : Decoder) (j : ℕ) : Prop :=
  if cfg.branchEnable then
    d.setLastIp.lastIp ≠ 0 ∧ d.prog.noProgress ≤ 1 ∧ j + d.fup.ahead ev ≤ 1
  else d.fup.ahead ev = 0

/-- An event is reported exactly once, at the address of its FUP and before anything else is read,
if at most one other state has to be returned before. -/
theorem fup_event_delivered (hcode : cfg.walkInsn = code.walkInsn)
    (hmalloc : ∀ n, cfg.malloc n = true) (h : EventFup cfg ev c s) {j : ℕ}
    (happ : Approaches code cfg s.2.setLastIp.lastIp j s.2.ip s.2.smp s.2.now)
    (hclear : Clear cfg ev s.2 j) : DeliversOnce cfg ev s.2.setLastIp.lastIp s.2.log c := by
  obtain ⟨hp, -⟩ := h.waits
  unfold Clear at hclear
  by_cases hb : cfg.branchEnable = true
  · rw [if_pos hb] at hclear
    obtain ⟨hx, hprog, hle⟩ := hclear
    obtain hzero | hone : j + s.2.fup.ahead ev = 0 ∨ j + s.2.fup.ahead ev = 1 := by omega
    · obtain ⟨rfl, ha⟩ : j = 0 ∧ s.2.fup.ahead ev = 0 := by omega
      obtain ⟨e, hwalk, hreports⟩ := walkFup_reports (d := s.2.setLastIp) hcode hx happ hp ha
      have hreports' : Reports ev s.2.setLastIp.lastIp s.2.log { e with pktState := .fupNoTip } :=
        ⟨hreports.shows, hreports.fromIp, hreports.pending, hreports.log⟩
      exact Reports.deliversOnce [] hreports' (by simp)
        (h.comesTo.decode (h.tracePass_eq hb hwalk) (by simp))
    · obtain ⟨e, hwalk, hway⟩ := walkFup_onTheWay
        (d := s.2.setLastIp) hcode hmalloc hx hprog happ hp
        hone (h.comesTo.silent ev)
      have hway' : OnTheWay code cfg ev s.2.setLastIp.lastIp s.2.log
          { e with pktState := .fupNoTip } :=
        ⟨hway.lastIp, hway.approaches, hway.pending, hway.ahead, hway.shows, hway.log⟩
      have hdecode := h.comesTo.decode (h.tracePass_eq hb hwalk) (by simp)
      obtain ⟨st, hst, hway'', hstate⟩ := hway'.conclude rfl
      rw [← hdecode] at hway'' hstate
      obtain ⟨e', hdecode', hreports⟩ := hway''.decode hcode hx hstate
      exact Reports.deliversOnce [st] hreports (by simpa using hst) hdecode'
  · rw [if_neg hb] at hclear
    obtain ⟨e, hevent, hreports⟩ := fupEvent_reports
      (d := { s.2.setLastIp with ip := s.2.setLastIp.lastIp }) hp hclear
    exact Reports.deliversOnce [] hreports (by simp)
      (h.comesTo.decode (h.tracePass_eq_of_not hb hevent) (by simp))

end

def jumpCode : Program where
  insnAt ip :=
    if ip = 0x1000 then some { op := .jmp, branch := .unconditional, length := 5, rel := 0xffb }
    else if ip = 0x2000 then
      some { op := .jmp, branch := .unconditional, length := 5, rel := 0xffb }
    else if ip = 0x3000 then some { length := 1 }
    else none
  regular ip insn h := by
    split_ifs at h <;> cases h <;> simp [RegularInsn]

def jumpConfig : Config := { walkInsn := jumpCode.walkInsn, branchEnable := true }

def ptwriteTrace (fups : List UInt8) : List TraceItem :=
  [.buffer { bytes := psbStr ++ [0xdd, 0, 0x10, 0, 0, 0, 0, 0, 0] ++ [0x02, 0x23] ++
    [0x02, 0x92, 1, 2, 3, 4] ++ fups }]

/-- The decoder once it is in sync. -/
def jumpStart : Decoder := (Decoder.new (ptwriteTrace [0x3d, 0, 0x20])).run [jumpConfig]

def atPtwrite : Decoder := (jumpStart.startState.getNextPacket .trace).2

def atFup : Bool × Decoder :=
  match Decoder.tracePass jumpConfig (false, atPtwrite) with
  | .again s => s
  | .leave r => (false, r.2)

theorem atFup_eventFup : EventFup jumpConfig .ptw jumpStart atFup := by
  have hget : jumpStart.startState.getNextPacket .trace = (.ok, atPtwrite) :=
    Prod.ext (by decide +kernel) rfl
  have hpass : Decoder.tracePass jumpConfig (false, atPtwrite) = .again atFup := by
    have hagain : (match Decoder.tracePass jumpConfig (false, atPtwrite) with
        | .again _ => true
        | .leave _ => false) = true := by decide +kernel
    unfold atFup
    generalize Decoder.tracePass jumpConfig (false, atPtwrite) = p at hagain ⊢
    cases p with
    | again s => rfl
    | leave r => cases hagain
  refine ⟨⟨_, _, .inSync (by decide +kernel), hget, .again hpass .refl⟩, by decide +kernel,
    by decide +kernel, .inl ⟨(false, atPtwrite), ?_, hpass⟩⟩
  change atPtwrite.rd.packet.type = .ptwriteIp
  decide +kernel

/-- One jump away. -/
theorem ptwrite_one_jump_delivered :
    DeliversOnce jumpConfig .ptw 0x2000 atFup.2.log jumpStart := by
  have hip : atFup.2.setLastIp.lastIp = 0x2000 := by decide +kernel
  have hreach : Reaches jumpCode 0x2000 1 0x1000 := by
    apply Reaches.branch .here (by decide) rfl rfl
    have htarget : Insn.target { op := .jmp, branch := .unconditional, length := 5, rel := 0xffb }
        0x1000 = 0x2000 := by decide +kernel
    rw [htarget]
    exact .arrives .here
  have happ : Approaches jumpCode jumpConfig atFup.2.setLastIp.lastIp 1 atFup.2.ip atFup.2.smp
      atFup.2.now := by
    have hat : atFup.2.ip = 0x1000 := by decide +kernel
    rw [hip, hat]
    exact hreach.approaches (.inl rfl) _ _
  have hclear : Clear jumpConfig .ptw atFup.2 1 := by
    unfold Clear
    decide +kernel
  have h := fup_event_delivered rfl (fun _ => rfl) atFup_eventFup happ hclear
  rwa [hip] at h

/-- Two jumps away the event is lost, and reported at the address of the next FUP. -/
theorem ptwrite_two_jumps_late :
    let d := fun n => (Decoder.new (ptwriteTrace [0x3d, 0, 0x30, 0x3d, 0x01, 0x30])).run
      (List.replicate n jumpConfig)
    ((d 2).st.type = { branch := true } ∧ (d 2).st.toIp = 0x2000) ∧
      ((d 3).st.type = { branch := true } ∧ (d 3).st.toIp = 0x3000) ∧
      (d 2).rd = (d 3).rd ∧
      (d 4).st.type = { ptw := true } ∧ (d 4).st.fromIp = 0x3001 ∧ (d 4).lastIp = 0x3001 := by
  decide +kernel

end RPerf.Decode
