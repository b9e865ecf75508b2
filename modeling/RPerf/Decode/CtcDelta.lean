import RPerf.Decode.CtcClock
import RPerf.Packets.Scanning

/-!
# The crystal clock of a run

Which MTC packets have come since the last TMA packet is read off the log.
-/

namespace RPerf.Decode

open Lib Packets

/-- The TMA packet that holds after a log, with the MTC packets since it, the newest first. -/
def sinceTma : List Event → Option (UInt64 × List UInt64)
  | [] => none
  | .packet w p _ _ :: log =>
    if losesTma w p.type then none
    else if p.type = .mtc then (sinceTma log).map fun s => (s.1, p.payload :: s.2)
    else sinceTma log
  | .putBack :: _ :: log => sinceTma log
  | .timed _ p _ _ :: log => if p.type = .tma then some (p.payload, []) else sinceTma log
  | .enter _ rd :: log => if rd.getNextPacket.1 = .bad then none else sinceTma log
  | .returned _ :: log => sinceTma log
  | .gap :: _ => none
  | [.putBack] => none

variable {s : UInt32} {c : CtcCount} {log : List Event} {d e : Decoder}

def CountsTicks (s : UInt32) (log : List Event) (c : CtcCount) : Prop :=
  ∀ tma mtcs, sinceTma log = some (tma, mtcs) →
    c = mtcs.reverse.foldl (fun c mtc => c.next s mtc.toUInt32) (.ofTma s tma)

def CountedTicks (s : UInt32) (log : List Event) : Prop :=
  ∀ t p before after older, Event.timed t p before after :: older <:+ log →
    CountsTicks s (.timed t p before after :: older) after.ctc

def TicksInv (s : UInt32) (d : Decoder) : Prop :=
  CountsTicks s d.log d.clk.ctc ∧ CountedTicks s d.log

def TicksTo (s : UInt32) (w : Walker) (d : Decoder) : Prop :=
  CountedTicks s d.log ∧ ∃ have_ ip log, d.log = .packet w d.rd.packet have_ ip :: log ∧
    (w = .tnt ∨ losesTma w d.rd.packet.type = false → CountsTicks s log d.clk.ctc)

theorem CountsTicks.of_eq {log' : List Event} (h : CountsTicks s log c)
    (heq : sinceTma log' = sinceTma log) : CountsTicks s log' c := by
  intro tma mtcs hsince
  exact h tma mtcs (heq ▸ hsince)

theorem CountsTicks.of_none (h : sinceTma log = none) : CountsTicks s log c := by
  intro tma mtcs hsince
  rw [h] at hsince
  cases hsince

theorem CountsTicks.mtc {p : Pkt} (h : CountsTicks s log c) (hp : p.type = .mtc) (w : Walker)
    (have_ : Bool) (ip : UInt64) :
    CountsTicks s (.packet w p have_ ip :: log) (c.next s p.payload.toUInt32) := by
  intro tma mtcs hsince
  simp only [sinceTma, hp, losesTma, Bool.false_eq_true, if_false, if_true,
    Option.map_eq_some_iff, Prod.mk.injEq] at hsince
  obtain ⟨since, hlog, rfl, rfl⟩ := hsince
  rw [List.reverse_cons, List.foldl_append, ← h since.1 since.2 hlog]
  rfl

theorem CountedTicks.cons {ev : Event} (h : CountedTicks s log)
    (hev : ∀ t p before after, ev = .timed t p before after →
      CountsTicks s (.timed t p before after :: log) after.ctc) : CountedTicks s (ev :: log) := by
  intro t p before after older hsuf
  rcases List.suffix_cons_iff.mp hsuf with heq | hsuf
  · obtain ⟨rfl, rfl⟩ := List.cons.inj heq
    exact hev t p before after rfl
  · exact h t p before after older hsuf

variable {w : Walker}

theorem TicksTo.settle (h : TicksTo s w d) (hmtc : d.rd.packet.type ≠ .mtc) : TicksInv s d := by
  obtain ⟨hcounted, have_, ip, log, hlog, hcounts⟩ := h
  refine ⟨?_, hcounted⟩
  rw [hlog]
  cases hlose : losesTma w d.rd.packet.type with
  | true => exact .of_none (by simp [sinceTma, hlose])
  | false => exact (hcounts (.inr hlose)).of_eq (by simp [sinceTma, hlose, hmtc])

theorem TicksTo.time {cfg : Config} {f : Clock → Timing → Reader → Clock}
    (h : TicksTo cfg.timing.mtcShift w d) (hratio : cfg.timing.tscCtcRatioD ≠ 0)
    (hf : TimedBy d.rd.packet.type f) : TicksInv cfg.timing.mtcShift (d.time cfg f) := by
  obtain ⟨hcounted, have_, ip, log, hlog, hcounts⟩ := h
  have htimed : CountsTicks cfg.timing.mtcShift (d.time cfg f).log (d.time cfg f).clk.ctc := by
    rw [d.time_clk cfg hf]
    change CountsTicks _ (.timed cfg.timing d.rd.packet d.clk _ :: d.log) _
    rw [hlog]
    generalize ht : d.rd.packet.type = ty at hf hcounts
    cases hf <;> rw [Clock.handle, ht]
    case tsc => exact .of_none (by simp [sinceTma, ht, losesTma])
    case tma =>
      intro tma mtcs hsince
      simp only [sinceTma, ht, if_true, Option.some.injEq, Prod.mk.injEq] at hsince
      obtain ⟨rfl, rfl⟩ := hsince
      exact Clock.calcTma_ctc _ _ _ hratio
    case mtc =>
      rw [Clock.calcMtcTimestamp_ctc]
      exact ((hcounts (.inr rfl)).mtc ht w have_ ip).of_eq (by simp [sinceTma, ht])
    case cyc =>
      rw [Clock.calcCycTimestamp_ctc]
      exact (hcounts (.inr rfl)).of_eq (by simp [sinceTma, ht, losesTma])
  refine ⟨htimed, hcounted.cons ?_⟩
  intro t p before after heq
  cases heq
  exact htimed

theorem TicksInv.enter (h : TicksInv s d) (w : Walker) : TicksInv s (d.note (.enter w d.rd)) := by
  refine ⟨?_, h.2.cons (by simp)⟩
  by_cases hbad : d.rd.getNextPacket.1 = .bad
  · exact .of_none (by simp [Decoder.note, sinceTma, hbad])
  · exact h.1.of_eq (by simp [Decoder.note, sinceTma, hbad])

theorem TicksInv.fetched {fr : Fetch × Reader} (h : TicksInv s d)
    (heq : d.fetched w fr = (.ok, e)) :
    TicksTo s w e := by
  obtain ⟨hfr, he⟩ := Decoder.fetched_ok heq
  rw [he]
  exact ⟨h.2.cons (by simp), d.haveLastIp, d.lastIp, d.log, rfl, fun _ => h.1⟩

theorem TicksInv.fetched_fail {fr : Fetch × Reader} {r : Status × Decoder} (h : TicksInv s d)
    (hbad : fr.1 = .bad → sinceTma d.log = none) (heq : d.fetched w fr = r) (hs : r.1 ≠ .ok) :
    TicksInv s r.2 := by
  subst heq
  unfold Decoder.fetched at hs ⊢
  split
  case h_1 => exact absurd rfl hs
  case h_4 => exact ⟨.of_none (hbad rfl), h.2⟩
  case h_5 => exact ⟨.of_none rfl, h.2.cons (by simp)⟩
  all_goals exact h

theorem closedSync_ticks (cfg : Config) (hratio : cfg.timing.tscCtcRatioD ≠ 0) :
    ClosedSync cfg none (TicksInv cfg.timing.mtcShift) (TicksTo cfg.timing.mtcShift)
      fun _ => False where
  quiet {d e} hd hq := by
    unfold TicksInv at hd ⊢
    rwa [hq.log, hq.ctc]
  quietJ {w d e} hd hq := by
    unfold TicksTo at hd ⊢
    rwa [hq.log, hq.ctc, hq.rd]
  lose {w d} hd hlose hw := by
    obtain ⟨hcounted, have_, ip, log, hlog, -⟩ := hd
    refine ⟨hcounted, have_, ip, log, hlog, ?_⟩
    rintro (htnt | hkeep)
    · exact absurd htnt hw
    · exact absurd (hkeep.symm.trans hlose) Bool.false_ne_true
  drop hd _ hw := hd.settle hw.2
  ignore hd hw := hd.settle hw.passesOver.2
  unknown {w d} hd hip _ := hd.settle (hip.passesOver w).2
  expand {w d} hd hip _ _ := hd.settle (hip.passesOver w).2
  psb hd ht := hd.settle (by simp [ht])
  time hd ht _ := hd.time hratio ht
  bug hd ht := hd.settle (by simp [ht])
  event hk := nomatch hk
  mark hk := nomatch hk
  fetch hd heq := (hd.enter _).fetched heq
  fail {w d r} hd heq hs := by
    refine .inl ((hd.enter w).fetched_fail (fun hbad => ?_) heq hs)
    simp [Decoder.note, sinceTma, hbad]
  putBack {d} hd := by
    obtain ⟨hcounted, have_, ip, log, hlog, hcounts⟩ := hd
    refine ⟨?_, hcounted.cons (by simp)⟩
    change CountsTicks _ (.putBack :: d.log) d.clk.ctc
    rw [hlog]
    exact (hcounts (.inl rfl)).of_eq rfl
  forget hd := hd
  scan {d e} hd _ _ heq := by
    have hpsb : e.rd.packet.type = .psb := by
      have hscan := d.rd.scanForPsb_scanned.found
      rw [(Decoder.fetched_ok heq).1] at hscan
      rw [(hscan rfl).1]
    exact (hd.fetched heq).settle (by simp [hpsb])
  scanFail {d r} hd heq hs := by
    refine .inl (hd.fetched_fail (fun hbad => ?_) heq hs)
    exact absurd hbad d.rd.scanForPsb_scanned.bad

theorem TicksInv.decode {cfg : Config} (hratio : cfg.timing.tscCtcRatioD ≠ 0)
    (h : TicksInv cfg.timing.mtcShift d) : TicksInv cfg.timing.mtcShift (d.decode cfg) := by
  have hloop := (closedSync_ticks cfg hratio).decodeLoop (fun _ => False.elim) h
    (2 * d.rd.unread + 3)
  unfold Decoder.decode
  generalize loop (Decoder.decodePass cfg) (fun d => (.overrun, d)) (2 * d.rd.unread + 3) d = r
    at hloop ⊢
  have hctc : (Decoder.conclude cfg r).clk.ctc = r.2.clk.ctc := by
    simp only [Decoder.conclude, Decoder.note, Decoder.seeCbr, Decoder.sampleTime]
    split_ifs <;> rfl
  unfold TicksInv
  rw [Decoder.conclude_log, hctc]
  exact ⟨hloop.1.of_eq rfl, hloop.2.cons (by simp)⟩

/-- `ctc_delta` is what the crystal clock has gone on since the TMA packet that holds. -/
def Recovers (s : ℕ) (log : List Event) (clk : Clock) : Prop :=
  ∀ tma mtcs, sinceTma log = some (tma, mtcs) →
    ∀ (c₀ : ℕ) (ms : List ℕ), tma.toNat = c₀ % 2 ^ 16 →
      mtcs.reverse.map UInt64.toNat = ms.map (· % 256) → TicksFrom s (c₀ >>> s) ms →
      clk.ctcDelta.toNat = ((ms.getLastD (c₀ >>> s) - c₀ >>> s) <<< s) % 2 ^ 64

theorem CountsTicks.recovers {clk : Clock} (h : CountsTicks s log clk.ctc) (hs : s.toNat ≤ 15) :
    Recovers s.toNat log clk := by
  intro tma mtcs hsince c₀ ms htma hmtcs hticks
  have hstands := CtcCount.standsAt_ticks hs htma hmtcs hticks
  rw [← h tma mtcs hsince] at hstands
  rw [Nat.shiftLeft_eq]
  exact hstands.ctcDelta

/-- The MTC packets of a run recover the crystal clock, after every call and after every timing
packet. -/
theorem ctc_delta_recovered (trace : List TraceItem) (cfgs : List Config) (t : Timing)
    (htiming : ∀ cfg ∈ cfgs, cfg.timing = t) (hs : t.mtcShift ≤ 15) (hratio : t.tscCtcRatioD ≠ 0) :
    Recovers t.mtcShift.toNat ((Decoder.new trace).run cfgs).log
        ((Decoder.new trace).run cfgs).clk ∧
      ∀ u p before after older,
        Event.timed u p before after :: older <:+ ((Decoder.new trace).run cfgs).log →
        Recovers t.mtcShift.toNat (.timed u p before after :: older) after := by
  have hs' : t.mtcShift.toNat ≤ 15 := UInt32.le_iff_toNat_le.mp hs
  have hnew : TicksInv t.mtcShift (Decoder.new trace) := by
    refine ⟨.of_none rfl, fun u p before after older hsuf => ?_⟩
    exact absurd (List.suffix_nil.mp hsuf) (by simp)
  have hrun := Decoder.run_invariant (I := TicksInv t.mtcShift) cfgs (fun cfg hmem d hd => by
    obtain rfl := htiming cfg hmem
    exact hd.decode hratio) hnew
  exact ⟨hrun.1.recovers hs', fun u p before after older hsuf =>
    (hrun.2 u p before after older hsuf).recovers hs'⟩

/-- The packets that have been fetched, the first one first. -/
def fetchedPackets (log : List Event) : List (PktType × UInt64) :=
  log.reverse.filterMap fun ev =>
    match ev with
    | .packet _ p _ _ => some (p.type, p.payload)
    | _ => none

/-- A PSB+ with a TMA packet, and these packets. -/
def tmaTrace (ctc : List UInt8) (rest : List UInt8) : List TraceItem :=
  [.buffer { bytes := psbStr ++ [0x02, 0x73] ++ ctc ++ [0, 0, 0] ++ [0x02, 0x23] ++ rest }]

/-- With one bit in common: 3 periods in two packets, over the end of the 8-bit counter. -/
theorem ctc_delta_one_bit :
    let cfg : Config :=
      { walkInsn := fun ip _ _ => { ip := ip }, branchEnable := true
        timing := { mtcShift := 15, tscCtcRatioD := 1 } }
    let d := (Decoder.new (tmaTrace [0x01, 0x80] [0x59, 1, 0x59, 2])).run [cfg]
    fetchedPackets d.log = [(.psb, 0), (.tma, 0x8001), (.psbend, 0), (.mtc, 1), (.mtc, 2)] ∧
      d.clk.ctcDelta.toNat = 3 <<< 15 := by
  intro cfg d
  have hticks : TicksFrom 15 (0x7f8001 >>> 15) [257, 258] := ⟨by decide, by decide, by simp⟩
  have hdelta := (ctc_delta_recovered (tmaTrace [0x01, 0x80] [0x59, 1, 0x59, 2]) [cfg] cfg.timing
    (by simp) (by decide) (by decide)).1 0x8001 [2, 1] (by decide +kernel) 0x7f8001 [257, 258]
    (by decide) (by decide) hticks
  exact ⟨by decide +kernel, hdelta.trans (by decide)⟩

theorem tracestop_stops_ticks :
    let cfg : Config :=
      { walkInsn := fun ip _ _ => { ip := ip }, branchEnable := true
        timing := { mtcShift := 3, tscCtcRatioD := 1 } }
    let d := (Decoder.new (tmaTrace [0x10, 0] [0x02, 0x83, 0x59, 3])).run [cfg]
    fetchedPackets d.log = [(.psb, 0), (.tma, 0x10), (.psbend, 0), (.tracestop, 0), (.mtc, 3)] ∧
      d.clk.ctcDelta = 0 ∧ (3 - 0x10 >>> 3) <<< 3 = 8 := by
  decide +kernel

end RPerf.Decode
