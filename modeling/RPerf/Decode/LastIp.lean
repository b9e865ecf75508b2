import RPerf.Decode.Invariants
import RPerf.Packets.Scanning

/-!
# The last IP

Compressed IPs are expanded against `last_ip`.
-/

namespace RPerf.Decode

open Lib Packets

def refStep (p : Pkt) (ip : UInt64) : UInt64 :=
  if p.type = .psb then 0 else if IsIp p.type ∧ p.count ≠ 0 then calcIp p ip else ip

def refIp : List Event → UInt64
  | [] => 0
  | .putBack :: _ :: log => refIp log
  | .packet _ p _ _ :: log => refStep p (refIp log)
  | _ :: log => refIp log

def Fresh : List Event → Prop
  | [] => True
  | .packet _ _ haveLastIp lastIp :: log => (haveLastIp = true → lastIp = refIp log) ∧ Fresh log
  | _ :: log => Fresh log

def Misses : Event → Prop
  | .packet w p haveLastIp lastIp =>
    (Ignores w p.type ∧ haveLastIp = true ∧ refStep p lastIp ≠ lastIp) ∨
      (Trusting w ∧ IsIp p.type ∧ haveLastIp = false ∧
        (p.count = 1 ∨ p.count = 2 ∨ p.count = 4))
  | _ => False

instance : (w : Walker) → (t : PktType) → Decidable (Ignores w t)
  | .fupTip, t => inferInstanceAs (Decidable (t = .fup ∨ t = .psb))
  | .psb, t => inferInstanceAs (Decidable (t = .tip ∨ t = .tipPge ∨ t = .tipPgd ∨ t = .psb))
  | .scan, _ | .toIp, _ | .psbend, _ | .trace, _ | .tnt, _ => isFalse id

instance : (w : Walker) → Decidable (Trusting w)
  | .trace | .tnt | .psbend | .fupTip => isTrue trivial
  | .scan | .psb | .toIp => isFalse id

instance : (e : Event) → Decidable (Misses e)
  | .packet .. => inferInstanceAs (Decidable (_ ∨ _))
  | .enter .. | .putBack | .gap | .timed .. | .returned .. => isFalse id

theorem refStep_harmless {p : Pkt} (h : Harmless p) (ip : UInt64) : refStep p ip = ip := by
  rw [refStep, if_neg h.1, if_neg fun hip => hip.2 (h.2 hip.1)]

theorem refStep_ip {p : Pkt} (hip : IsIp p.type) (hcount : p.count ≠ 0) (ip : UInt64) :
    refStep p ip = calcIp p ip := by
  have hpsb : p.type ≠ .psb := by
    rintro h
    rw [h] at hip
    exact absurd hip (by decide)
  rw [refStep, if_neg hpsb, if_pos ⟨hip, hcount⟩]

theorem calcIp_full {p : Pkt} (h1 : p.count ≠ 1) (h2 : p.count ≠ 2) (h4 : p.count ≠ 4)
    (ip ip' : UInt64) : calcIp p ip = calcIp p ip' := by
  unfold calcIp
  split <;> first | rfl | contradiction

theorem harmless_of_timedBy {p : Pkt} {f : Clock → Timing → Reader → Clock}
    (h : TimedBy p.type f) : Harmless p := by
  have ht : p.type = .tsc ∨ p.type = .tma ∨ p.type = .mtc ∨ p.type = .cyc := by
    generalize p.type = t at h
    cases h <;> simp
  obtain ht | ht | ht | ht := ht <;> simp [Harmless, ht, IsIp]

namespace Decoder

/-- Every packet on record has been handled as the reference asks. -/
def NoMisses (d : Decoder) : Prop := ∀ e ∈ d.log, ¬ Misses e

instance (d : Decoder) : Decidable d.NoMisses :=
  inferInstanceAs (Decidable (∀ e ∈ d.log, ¬ Misses e))

/-- The last IP is the reference, if it is known. -/
def LastIpFresh (d : Decoder) : Prop := d.haveLastIp = true → d.lastIp = refIp d.log

/-- The invariant between packets. -/
def IpInv (d : Decoder) : Prop := d.NoMisses → Fresh d.log ∧ d.LastIpFresh

def IpPending (w : Walker) (d : Decoder) : Prop :=
  ∃ log, d.log = .packet w d.rd.packet d.haveLastIp d.lastIp :: log ∧ (d.NoMisses → Fresh d.log)

variable {d e : Decoder} {w : Walker}

theorem IpPending.handled (hd : IpPending w d) (hlog : e.log = d.log)
    (h : ∀ ref, (d.haveLastIp = true → d.lastIp = ref) →
      ¬ Misses (.packet w d.rd.packet d.haveLastIp d.lastIp) →
      e.haveLastIp = true → e.lastIp = refStep d.rd.packet ref) : IpInv e := by
  obtain ⟨log, heq, hfresh⟩ := hd
  intro hno
  have hno' : d.NoMisses := fun ev hev => hno ev (hlog ▸ hev)
  have hf := hfresh hno'
  refine ⟨hlog ▸ hf, fun hhave => ?_⟩
  have hmiss := hno' _ (heq ▸ List.mem_cons_self)
  rw [heq] at hf
  rw [hlog, heq]
  exact h (refIp log) hf.1 hmiss hhave

theorem IpPending.drop (hd : IpPending w d) (hp : Harmless d.rd.packet) : IpInv d := by
  refine hd.handled rfl fun ref href _ hhave => ?_
  rw [refStep_harmless hp]
  exact href hhave

theorem IpPending.ignore (hd : IpPending w d) (hw : Ignores w d.rd.packet.type) : IpInv d := by
  refine hd.handled rfl fun ref href hmiss hhave => ?_
  have hstep : refStep d.rd.packet d.lastIp = d.lastIp := by
    by_contra hne
    exact hmiss (.inl ⟨hw, hhave, hne⟩)
  rw [← href hhave, hstep]

theorem IpPending.expand (hd : IpPending w d) (hip : IsIp d.rd.packet.type)
    (hcount : d.rd.packet.count ≠ 0) (hw : Trusting w ∨ d.haveIp = true) : IpInv d.setLastIp := by
  refine hd.handled rfl fun ref href hmiss _ => ?_
  rw [refStep_ip hip hcount]
  change calcIp d.rd.packet d.lastIp = calcIp d.rd.packet ref
  by_cases hhave : d.haveLastIp = true
  · rw [href hhave]
  have hfull : ¬ (d.rd.packet.count = 1 ∨ d.rd.packet.count = 2 ∨ d.rd.packet.count = 4) := by
    intro hc
    obtain hw | hw := hw
    · exact hmiss (.inr ⟨hw, hip, by simpa using hhave, hc⟩)
    · simp only [haveIp, hhave, Bool.false_eq_true, false_or, decide_eq_true_eq] at hw
      omega
  exact calcIp_full (fun h => hfull (.inl h)) (fun h => hfull (.inr (.inl h)))
    (fun h => hfull (.inr (.inr h))) _ _

def Idle (e : Event) : Prop :=
  (∀ log, refIp (e :: log) = refIp log) ∧ ∀ log, Fresh (e :: log) ↔ Fresh log

theorem IpInv.idle {ev : Event} (hd : IpInv d) (hev : Idle ev) (hlog : e.log = ev :: d.log)
    (hlast : e.lastIp = d.lastIp) (hhave : e.haveLastIp = true → d.haveLastIp = true) :
    IpInv e := by
  intro hno
  obtain ⟨hf, hlip⟩ := hd fun x hx => hno x (hlog ▸ List.mem_cons_of_mem _ hx)
  refine ⟨hlog ▸ (hev.2 _).mpr hf, fun he => ?_⟩
  rw [hlog, hev.1, hlast]
  exact hlip (hhave he)

theorem idle_enter (w : Walker) (rd : Reader) : Idle (.enter w rd) :=
  ⟨fun _ => rfl, fun _ => Iff.rfl⟩

theorem idle_gap : Idle .gap := ⟨fun _ => rfl, fun _ => Iff.rfl⟩

theorem idle_timed (t : Timing) (p : Pkt) (c c' : Clock) : Idle (.timed t p c c') :=
  ⟨fun _ => rfl, fun _ => Iff.rfl⟩

theorem idle_returned (s : State) : Idle (.returned s) := ⟨fun _ => rfl, fun _ => Iff.rfl⟩

theorem IpInv.enter (hd : IpInv d) (w : Walker) :
    IpInv (d.note (.enter w d.rd)) := hd.idle (idle_enter w d.rd) rfl rfl id

theorem IpInv.fetched {fr : Fetch × Reader} (hd : IpInv d) (heq : d.fetched w fr = (.ok, e)) :
    IpPending w e := by
  obtain ⟨-, he⟩ := fetched_ok heq
  rw [he]
  refine ⟨d.log, rfl, fun hno => ?_⟩
  obtain ⟨hf, hlip⟩ := hd fun x hx => hno x (List.mem_cons_of_mem _ hx)
  exact ⟨hlip, hf⟩

theorem IpInv.fetched_fail {r : Status × Decoder} {fr : Fetch × Reader} (hd : IpInv d)
    (heq : d.fetched w fr = r) (hs : r.1 ≠ .ok) : IpInv r.2 := by
  subst heq
  unfold Decoder.fetched at hs ⊢
  split
  case h_1 => exact absurd rfl hs
  case h_5 => exact hd.idle idle_gap rfl rfl id
  all_goals exact hd

theorem closedSync_ip (cfg : Config) : ClosedSync cfg none IpInv IpPending fun _ => False where
  quiet {d e} hd hq := by
    unfold IpInv NoMisses LastIpFresh at hd ⊢
    rwa [hq.log, hq.lastIp, hq.haveLastIp]
  quietJ {w d e} hd hq := by
    unfold IpPending NoMisses at hd ⊢
    rwa [hq.log, hq.lastIp, hq.haveLastIp, hq.rd]
  lose hd _ _ := hd
  drop hd hp _ := hd.drop hp
  ignore hd hw := hd.ignore hw
  unknown hd _ hno := hd.handled rfl fun _ _ _ hhave => absurd hhave (by simp [hno])
  expand hd hip hcount hw := hd.expand hip hcount hw
  psb hd hpsb := hd.handled rfl fun _ _ _ _ => by simp [refStep, hpsb]
  time hd ht _ := (hd.drop (harmless_of_timedBy ht)).idle (idle_timed _ _ _ _) rfl rfl id
  bug hd ht := hd.drop (by simp [Harmless, IsIp, ht])
  event hk := nomatch hk
  mark hk := nomatch hk
  fetch hd heq := (hd.enter _).fetched heq
  fail hd heq hs := .inl ((hd.enter _).fetched_fail heq hs)
  putBack {d} hd := by
    obtain ⟨log, heq, hfresh⟩ := hd
    intro hno
    have hf := hfresh fun x hx => hno x (List.mem_cons_of_mem _ hx)
    refine ⟨hf, fun hhave => ?_⟩
    rw [heq] at hf
    change d.lastIp = refIp (.putBack :: d.log)
    rw [heq]
    exact hf.1 hhave
  forget hd hno := ⟨(hd hno).1, fun hhave => nomatch hhave⟩
  scan {d e} hd hhave hlast heq := by
    have hpsb : e.rd.packet.type = .psb := by
      have hscan := d.rd.scanForPsb_scanned.found
      rw [(fetched_ok heq).1] at hscan
      rw [(hscan rfl).1]
    have hpend := hd.fetched heq
    refine hpend.handled rfl fun _ _ _ _ => ?_
    rw [(fetched_ok heq).2]
    simp [refStep, hpsb, hlast, foundPsb]
  scanFail hd heq hs := .inl (hd.fetched_fail heq hs)

theorem IpInv.decode (hd : IpInv d) (cfg : Config) : IpInv (d.decode cfg) := by
  have hloop := (closedSync_ip cfg).decodeLoop (fun _ => False.elim) hd (2 * d.rd.unread + 3)
  unfold Decoder.decode
  generalize loop (decodePass cfg) (fun d => (.overrun, d)) (2 * d.rd.unread + 3) d = r at hloop ⊢
  have hlast : (conclude cfg r).lastIp = r.2.lastIp ∧
      (conclude cfg r).haveLastIp = r.2.haveLastIp := by
    simp only [conclude, note, seeCbr]
    split_ifs <;> exact ⟨rfl, rfl⟩
  exact hloop.idle (idle_returned _) (conclude_log cfg r) hlast.1 fun h => hlast.2 ▸ h

/-- In a run in which no packet is missed, the last IP is the reference whenever it is known: after
every call, and whenever a packet is consumed during one. -/
theorem run_lastIp_fresh (trace : List TraceItem) (cfgs : List Config)
    (hno : ((Decoder.new trace).run cfgs).NoMisses) :
    ((Decoder.new trace).run cfgs).LastIpFresh ∧ Fresh ((Decoder.new trace).run cfgs).log := by
  have hnew : IpInv (Decoder.new trace) := fun _ => ⟨trivial, fun h => nomatch h⟩
  have hrun := run_invariant (I := IpInv) cfgs (fun cfg _ d hd => hd.decode cfg) hnew hno
  exact ⟨hrun.2, hrun.1⟩

/-- The code always gets to the address it is asked for. -/
def straight : Config where
  walkInsn _ ip _ := { ip := ip }
  branchEnable := true

/-- PSB, FUP, PSBEND, the packets given, and a TIP of two bytes. -/
def fupTrace (packets : List UInt8) : List TraceItem :=
  [.buffer { bytes := psbStr ++ [0xdd, 0, 0, 0x11, 0, 0, 0, 0, 0] ++ [0x02, 0x23] ++ packets ++
    [0x2d, 0x34, 0x12] }]

/-- A FUP with its TIP. -/
theorem run_lastIp_fresh_fup :
    let packets := [0xdd, 0, 0, 0x11, 0, 0, 0, 0, 0, 0xcd, 0, 0, 0x22, 0, 0, 0, 0, 0]
    let d := (Decoder.new (fupTrace packets)).run [straight, straight, straight]
    d.NoMisses ∧ d.LastIpFresh ∧ d.lastIp = 0x221234 := by
  intro packets d
  have hno : d.NoMisses := by decide +kernel
  exact ⟨hno, (run_lastIp_fresh _ _ hno).1, by decide +kernel⟩

theorem run_lastIp_stale :
    let packets := [0xdd, 0, 0, 0x11, 0, 0, 0, 0, 0, 0xdd, 0, 0, 0x22, 0, 0, 0, 0, 0]
    let d := (Decoder.new (fupTrace packets)).run [straight, straight, straight]
    ¬ d.LastIpFresh ∧ d.lastIp = 0x111234 ∧ d.ip = 0x111234 ∧ refIp d.log = 0x221234 := by
  intro packets d
  have hlast : d.haveLastIp = true ∧ d.lastIp = 0x111234 ∧ d.ip = 0x111234 ∧
      refIp d.log = 0x221234 := by decide +kernel
  refine ⟨fun h => ?_, hlast.2⟩
  rw [LastIpFresh, hlast.2.1, hlast.2.2.2] at h
  exact absurd (h hlast.1) (by decide)

end Decoder

end RPerf.Decode
