import RPerf.Decode.Invariants
import RPerf.Packets.Scanning

/-!
# Counting cycles

`cycle_cnt` adds up the payloads of CYC packets and starts again at a TSC packet, or an MTC
packet once there has been a TMA packet, that comes right after a CYC packet.
-/

namespace RPerf.Decode

open Lib Packets

def packetBefore : List Event → PktType
  | [] => .bad
  | .enter _ rd :: _ => rd.packet.type
  | .packet .. :: log | .putBack :: log | .gap :: log | .timed .. :: log | .returned _ :: log =>
    packetBefore log

def Restarts (p : Pkt) (haveTma : Bool) (before : PktType) : Bool :=
  before = .cyc ∧ (p.type = .tsc ∨ p.type = .mtc ∧ haveTma)

def cyclesSince (loops : Walker → Bool) : List Event → UInt64
  | [] => 0
  | .packet w p _ _ :: log =>
    if p.type = .cyc ∧ loops w then cyclesSince loops log + p.payload else cyclesSince loops log
  | .putBack :: _ :: log => cyclesSince loops log
  | .timed _ p before _ :: log =>
    if Restarts p before.haveTma (packetBefore log) then 0 else cyclesSince loops log
  | .enter .. :: log | .gap :: log | .returned _ :: log => cyclesSince loops log
  | [.putBack] => 0

/-- All cycles, and those of the packets that `intel_pt_walk_psbend` has consumed. -/
def cyclesConsumed : List Event → UInt64 := cyclesSince fun _ => true

def cyclesDropped : List Event → UInt64 := cyclesSince fun w => w = .psbend

def cyclesCounted : List Event → UInt64 := cyclesSince fun w => w ≠ .psbend

theorem cyclesConsumed_eq (log : List Event) :
    cyclesConsumed log = cyclesCounted log + cyclesDropped log := by
  unfold cyclesConsumed cyclesCounted cyclesDropped
  fun_induction cyclesSince (fun _ => true) log with
  | case1 => rfl
  | case2 w p _ _ log h ih =>
    by_cases hw : w = .psbend
    · simp only [cyclesSince, ih, h.1, hw, ne_eq, not_true_eq_false, decide_false, decide_true,
        Bool.false_eq_true, and_false, and_self, if_false, if_true, UInt64.add_assoc]
    · simp only [cyclesSince, ih, h.1, hw, ne_eq, not_false_eq_true, decide_false, decide_true,
        Bool.false_eq_true, and_false, and_self, if_false, if_true]
      rw [UInt64.add_assoc, UInt64.add_assoc, UInt64.add_comm p.payload]
  | case3 w p _ _ log h ih =>
    have ht : p.type ≠ .cyc := by simpa using h
    simp only [cyclesSince, ih, ht, false_and, if_false]
  | case5 t p before after log h => simp [cyclesSince, h]
  | case6 t p before after log h ih => simp [cyclesSince, h, ih]
  | case10 => rfl
  | _ => simpa only [cyclesSince]

section

variable {d e : Decoder}

/-- The count is that of the log. -/
def Counts (d : Decoder) : Prop := d.clk.cycleCnt = cyclesCounted d.log

def CountsTo (w : Walker) (d : Decoder) : Prop :=
  ∃ have_ ip log, d.log = .packet w d.rd.packet have_ ip :: log ∧
    d.clk.cycleCnt = cyclesCounted log ∧ d.rd.lastPacketType = packetBefore log

variable {w : Walker}

theorem CountsTo.settle (h : CountsTo w d) (hw : PassesOver w d.rd.packet.type) : Counts d := by
  obtain ⟨have_, ip, log, hlog, hcnt, -⟩ := h
  rw [Counts, hlog, hcnt, cyclesCounted, cyclesSince]
  by_cases ht : d.rd.packet.type = .cyc
  · simp [hw.1 ht]
  · simp [ht]

section

variable (clk : Clock) (t : Timing) (rd : Reader)

theorem restartCyc_cycleCnt (fromMtc : Bool) :
    (clk.restartCyc t rd fromMtc).cycleCnt =
      if rd.lastPacketType = .cyc then 0 else clk.cycleCnt := by
  simp only [Clock.restartCyc, Clock.calcCycToTscFrom]
  split_ifs
  · split <;> rfl
  · rfl
  · rfl

theorem calcTscTimestamp_cycleCnt :
    (clk.calcTscTimestamp t rd).cycleCnt =
      if rd.lastPacketType = .cyc then 0 else clk.cycleCnt := by
  simp only [Clock.calcTscTimestamp, restartCyc_cycleCnt]
  split_ifs <;> rfl

theorem calcMtcTimestamp_cycleCnt :
    (clk.calcMtcTimestamp t rd).cycleCnt =
      if clk.haveTma ∧ rd.lastPacketType = .cyc then 0 else clk.cycleCnt := by
  simp only [Clock.calcMtcTimestamp]
  by_cases htma : clk.haveTma = true
  · simp only [htma, not_true_eq_false, if_false, true_and, restartCyc_cycleCnt]
    split_ifs <;> rfl
  · simp [htma]

theorem calcTma_cycleCnt : (clk.calcTma t rd).cycleCnt = clk.cycleCnt := by
  simp only [Clock.calcTma]
  split_ifs <;> rfl

theorem calcCycTimestamp_cycleCnt :
    (clk.calcCycTimestamp t rd).cycleCnt = clk.cycleCnt + rd.packet.payload := by
  simp only [Clock.calcCycTimestamp]
  split_ifs <;> rfl

end

theorem CountsTo.time {cfg : Config} {f : Clock → Timing → Reader → Clock} (h : CountsTo w d)
    (hf : TimedBy d.rd.packet.type f) (hw : d.rd.packet.type = .cyc → w ≠ .psbend) :
    Counts (d.time cfg f) := by
  obtain ⟨have_, ip, log, hlog, hcnt, hlast⟩ := h
  have hsince : cyclesCounted (d.time cfg f).log =
      if Restarts d.rd.packet d.clk.haveTma (packetBefore log) then 0
      else cyclesCounted d.log := by
    change cyclesSince _ (_ :: d.log) = _
    rw [cyclesSince, hlog]
    rfl
  have hpacket : cyclesCounted d.log =
      if d.rd.packet.type = .cyc then cyclesCounted log + d.rd.packet.payload
      else cyclesCounted log := by
    rw [hlog, cyclesCounted, cyclesSince]
    by_cases ht : d.rd.packet.type = .cyc
    · simp [ht, hw ht]
    · simp [ht]
  rw [Counts, hsince, hpacket, ← hlast, ← hcnt]
  change (f d.clk cfg.timing d.rd).cycleCnt = _
  generalize ht : d.rd.packet.type = t at hf
  cases hf with
  | tsc => simp [calcTscTimestamp_cycleCnt, Restarts, ht]
  | tma => simp [calcTma_cycleCnt, Restarts, ht]
  | mtc => simp [calcMtcTimestamp_cycleCnt, Restarts, ht, and_comm]
  | cyc => simp [calcCycTimestamp_cycleCnt, Restarts, ht]

theorem Counts.fetched {fr : Fetch × Reader} (h : Counts d)
    (hlast : fr.2.lastPacketType = packetBefore d.log) (heq : d.fetched w fr = (.ok, e)) :
    CountsTo w e := by
  obtain ⟨hfr, he⟩ := Decoder.fetched_ok heq
  rw [hfr] at hlast
  rw [he]
  exact ⟨d.haveLastIp, d.lastIp, d.log, rfl, h, hlast⟩

theorem Counts.fetched_fail {fr : Fetch × Reader} {r : Status × Decoder} (h : Counts d)
    (heq : d.fetched w fr = r) (hs : r.1 ≠ .ok) : Counts r.2 := by
  subst heq
  unfold Decoder.fetched at hs ⊢
  split
  case h_1 => exact absurd rfl hs
  all_goals exact h

theorem closedSync_counts (cfg : Config) : ClosedSync cfg none Counts CountsTo fun _ => False where
  quiet {d e} hd hq := by
    rw [Counts, hq.cycleCnt, hq.log]
    exact hd
  quietJ {w d e} hd hq := by
    unfold CountsTo at hd ⊢
    rwa [hq.cycleCnt, hq.log, hq.rd]
  lose hd _ _ := hd
  drop hd _ hw := hd.settle hw
  ignore hd hw := hd.settle hw.passesOver
  unknown {w d} hd hip _ := hd.settle (hip.passesOver w)
  expand {w d} hd hip _ _ := hd.settle (hip.passesOver w)
  psb hd ht := hd.settle (by simp [PassesOver, ht])
  time hd ht hw := hd.time ht hw
  bug hd ht := hd.settle (by simp [PassesOver, ht])
  event hk := nomatch hk
  mark hk := nomatch hk
  fetch {w d d'} hd heq := by
    have hnote : Counts (d.note (.enter w d.rd)) := hd
    exact hnote.fetched d.rd.getNextPacket_lastPacketType heq
  fail {w d r} hd heq hs := by
    have hnote : Counts (d.note (.enter w d.rd)) := hd
    exact .inl (hnote.fetched_fail heq hs)
  putBack {d} hd := by
    obtain ⟨have_, ip, log, hlog, hcnt, -⟩ := hd
    change d.clk.cycleCnt = cyclesSince _ (.putBack :: d.log)
    rw [hlog, hcnt]
    rfl
  forget hd := hd
  scan {d e} hd _ _ heq := by
    obtain ⟨hfr, he⟩ := Decoder.fetched_ok heq
    have hpsb : e.rd.packet.type = .psb := by
      have hscan := d.rd.scanForPsb_scanned.found
      rw [hfr] at hscan
      rw [(hscan rfl).1]
    have hlog : cyclesCounted e.log = cyclesCounted d.log := by
      rw [he]
      simp [cyclesCounted, cyclesSince, hpsb]
    change e.clk.cycleCnt = cyclesCounted e.log
    rw [hlog, he]
    exact hd
  scanFail hd heq hs := .inl (hd.fetched_fail heq hs)

theorem Counts.decode (h : Counts d) (cfg : Config) : Counts (d.decode cfg) := by
  have hloop := (closedSync_counts cfg).decodeLoop (fun _ => False.elim) h (2 * d.rd.unread + 3)
  unfold Decoder.decode
  generalize loop (Decoder.decodePass cfg) (fun d => (.overrun, d)) (2 * d.rd.unread + 3) d = r
    at hloop ⊢
  have hcnt : (Decoder.conclude cfg r).clk.cycleCnt = r.2.clk.cycleCnt := by
    simp only [Decoder.conclude, Decoder.note, Decoder.seeCbr, Decoder.sampleTime]
    split_ifs <;> rfl
  rw [Counts, Decoder.conclude_log, hcnt]
  exact hloop

/-- After any number of calls `cycle_cnt` is the sum of the payloads of all CYC packets consumed
since it was reset exactly if those that `intel_pt_walk_psbend` has consumed do not matter. -/
theorem cycleCnt_eq_consumed_iff (trace : List TraceItem) (cfgs : List Config) :
    ((Decoder.new trace).run cfgs).clk.cycleCnt =
        cyclesConsumed ((Decoder.new trace).run cfgs).log ↔
      cyclesDropped ((Decoder.new trace).run cfgs).log = 0 := by
  have hnew : Counts (Decoder.new trace) := rfl
  have hrun := Decoder.run_invariant (I := Counts) cfgs (fun cfg _ d hd => hd.decode cfg) hnew
  rw [cyclesConsumed_eq, hrun]
  constructor
  · intro h
    exact UInt64.add_eq_left.mp h.symm
  · intro h
    rw [h, UInt64.add_zero]

end

/-- PSB+, a CYC packet, and a PSB+ with a CYC packet inside. -/
def cycTrace : List TraceItem :=
  [.buffer { bytes := psbStr ++ [0xdd, 0, 0x10, 0, 0, 0, 0, 0, 0] ++ [0x02, 0x23] ++ [0x1b] ++
    psbStr ++ [0x2b] ++ [0x02, 0x23] }]

/-- The five cycles inside of the second PSB+ are not counted. -/
theorem psbend_cyc_dropped :
    let cfg : Config := { walkInsn := fun ip _ _ => { ip := ip }, branchEnable := true }
    let d := (Decoder.new cycTrace).run [cfg, cfg]
    d.st.err = some .nodata ∧ d.clk.cycleCnt = 3 ∧ cyclesConsumed d.log = 8 := by
  decide +kernel

end RPerf.Decode
