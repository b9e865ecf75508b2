import RPerf.Decode.InsnSampling

/-!
# Samples are a period apart

A sample that is due is in the state that the call returns, unless the call starts the state
afresh: it does so after a gap in the trace.
-/

namespace RPerf.Decode

open Lib Packets Code

variable {cfg : Config} {p b : UInt64} {d : Decoder}

namespace Config.Samples

variable {c : Caller} {f : Decoder}

theorem visits_walkTntPass (hcfg : cfg.Samples p) (hd : d.tally.Open p b)
    (hv : Visits (Decoder.walkTntPass cfg) d f) : f.tally.Open p b := by
  refine hv.invariant (I := fun e : Decoder => e.tally.Open p b) (Q := fun _ => True) ?_ hd
  exact fun e he => (hcfg.walkTntPass he).mono (fun _ h => h) fun _ _ => trivial

theorem packetCalls (hcfg : cfg.Samples p) (hd : d.tally.Open p b)
    (h : PacketCalls cfg d c f) : f.tally.Open p b := by
  cases h with
  | tnt _ _ hv =>
    refine hcfg.visits_walkTntPass ?_ hv
    exact hd
  | tip _ => split_ifs <;> exact hd
  | fup _ _ _ => exact hd

theorem traceCalls (hcfg : cfg.Samples p) (hd : d.tally.Open p b)
    (h : TraceCalls cfg d c f) : f.tally.Open p b := by
  obtain ⟨hfetch, hv, hcall⟩ := h
  have hstart := hd.of_eq (d.getNextPacket_tally .trace)
  rw [hfetch] at hstart
  refine hcfg.packetCalls ?_ hcall
  refine hv.invariant (I := fun s : Bool × Decoder => s.2.tally.Open p b) (Q := fun _ => True) ?_
    hstart
  exact fun s hs => (hcfg.tracePass hs).mono (fun _ h => h) fun _ _ => trivial

theorem resumeCalls (hcfg : cfg.Samples p) (hd : d.tally.Open p b)
    (h : ResumeCalls cfg d c f) : f.tally.Open p b := by
  cases h with
  | inSync _ hcall => exact hcfg.traceCalls hd hcall
  | tnt _ hv => exact hcfg.visits_walkTntPass hd hv
  | afterTnt _ heq hcall =>
    have hwalk := hcfg.walkTnt hd
    rw [heq] at hwalk
    exact hcfg.traceCalls hwalk.of_again hcall
  | tip _ => exact hd
  | fup _ => exact hd
  | afterFup _ heq hcall =>
    have hwalk := hcfg.walkFup (d := d.enterSync) hd
    rw [heq] at hwalk
    exact hcfg.traceCalls hwalk.of_again hcall

end Config.Samples

structure CountsFrom (p b : UInt64) (d : Decoder) : Prop where
  lt : d.smp.periodInsnCnt < p
  tot : d.smp.totInsnCnt = b + d.smp.periodInsnCnt

namespace CountsFrom

theorem of_lt (h : d.smp.periodInsnCnt < p) :
    CountsFrom p (d.smp.totInsnCnt - d.smp.periodInsnCnt) d := ⟨h, by grind⟩

theorem of_open (h : d.tally.Open p b) : CountsFrom p b d := ⟨h.lt, h.tot⟩

theorem of_due (hp : 1 ≤ p) (h : d.tally.Due p b) : CountsFrom p (b + p) d := by
  obtain ⟨-, hperiod, htot⟩ := Tally.mk.inj h
  refine ⟨?_, ?_⟩
  · rw [hperiod]
    grind
  · rw [htot, hperiod, UInt64.add_zero]

theorem startState (h : CountsFrom p b d) : d.startState.tally.Open p b := ⟨rfl, h.lt, h.tot⟩

end CountsFrom

theorem WalkOutcome.lt {lost : Prop} {r : Status × Decoder} (hp : 1 ≤ p)
    (h : WalkOutcome p b lost r) : r.2.smp.periodInsnCnt < p := by
  obtain h | h := h
  · exact h.lt
  · exact (CountsFrom.of_due hp h.1).lt

namespace Decoder

theorem conclude_tally (cfg : Config) (r : Status × Decoder) :
    (conclude cfg r).tally = r.2.tally := by
  simp only [conclude, note, seeCbr]
  split_ifs <;> rfl

theorem conclude_totInsnCnt (cfg : Config) (r : Status × Decoder) :
    (conclude cfg r).st.totInsnCnt = (conclude cfg r).smp.totInsnCnt := by
  simp only [conclude, note]

theorem loop_startState (cfg : Config) (d : Decoder) (n : ℕ) :
    loop (decodePass cfg) (fun d => (.overrun, d)) (n + 1) d =
      loop (decodePass cfg) (fun d => (.overrun, d)) (n + 1) d.startState := rfl

end Decoder

theorem DecodeCalls.of_startState {c : Caller} {f : Decoder}
    (h : DecodeCalls cfg d.startState c f) : DecodeCalls cfg d c f := by
  obtain ⟨e, hv, hcall⟩ := h
  cases hv with
  | refl => exact ⟨d, .refl, hcall⟩
  | again hb hv => exact ⟨e, .again hb hv, hcall⟩

namespace Config.Samples

theorem decodePass_lt (hcfg : cfg.Samples p) (hp : 1 ≤ p) (hd : d.smp.periodInsnCnt < p) :
    (Decoder.decodePass cfg d).Satisfies (fun e => e.smp.periodInsnCnt < p)
      fun r => r.2.smp.periodInsnCnt < p := by
  have hlt := (hcfg.resume (CountsFrom.of_lt hd).startState).lt hp
  unfold Decoder.decodePass
  split
  next heq =>
    rw [heq] at hlt
    exact hlt
  · exact hlt

theorem decode_lt (hcfg : cfg.Samples p) (hp : 1 ≤ p) (hd : d.smp.periodInsnCnt < p) :
    (d.decode cfg).smp.periodInsnCnt < p := by
  refine (congrArg Tally.period (Decoder.conclude_tally cfg _)).trans_lt ?_
  exact loop_invariant (I := fun e : Decoder => e.smp.periodInsnCnt < p)
    (Q := fun r : Status × Decoder => r.2.smp.periodInsnCnt < p)
    (fun e he => hcfg.decodePass_lt hp he) (fun _ he => he) _ d hd

theorem decodeCalls_lt (hcfg : cfg.Samples p) (hp : 1 ≤ p) (hd : d.smp.periodInsnCnt < p)
    {c : Caller} {f : Decoder} (h : DecodeCalls cfg d c f) : f.smp.periodInsnCnt < p := by
  obtain ⟨e, hv, hcall⟩ := h
  have he := hv.invariant (fun e he => hcfg.decodePass_lt hp he) hd
  exact (hcfg.resumeCalls (CountsFrom.of_lt he).startState hcall).lt

theorem decode (hcfg : cfg.Samples p) (hp : 1 ≤ p) (hd : CountsFrom p b d)
    (hkeep : ∀ f, DecodeCalls cfg d .tnt f → ¬ LosesSample cfg f) :
    (d.decode cfg).st.type.instruction = false ∧ CountsFrom p b (d.decode cfg) ∨
      (d.decode cfg).st.type.instruction = true ∧ (d.decode cfg).st.totInsnCnt = b + p ∧
        CountsFrom p (b + p) (d.decode cfg) := by
  have hloop : WalkOutcome p b False (loop (Decoder.decodePass cfg) (fun d => (.overrun, d))
      (2 * d.rd.unread + 3) d.startState) := by
    refine loop_visited (I := fun e : Decoder => e.tally.Open p b) ?_ (fun _ he => .inl he) _
      hd.startState
    intro e hv he
    have hres := (hcfg.resume (CountsFrom.of_open he).startState).mono fun ⟨f, hf, hl⟩ =>
      hkeep f (DecodeCalls.of_startState ⟨e, hv, hf⟩) hl
    unfold Decoder.decodePass
    split
    next heq =>
      rw [heq] at hres
      exact hres.resolve_right fun h => h.2.2 rfl
    · exact hres
  rw [← Decoder.loop_startState] at hloop
  have htally := Decoder.conclude_tally cfg
    (loop (Decoder.decodePass cfg) (fun d => (.overrun, d)) (2 * d.rd.unread + 3) d)
  have htot := Decoder.conclude_totInsnCnt cfg
    (loop (Decoder.decodePass cfg) (fun d => (.overrun, d)) (2 * d.rd.unread + 3) d)
  obtain hopen | ⟨hdue, -⟩ := hloop
  · have hopen := hopen.of_eq htally
    exact .inl ⟨hopen.unsampled, .of_open hopen⟩
  · have hdue := htally.trans hdue
    exact .inr ⟨congrArg Tally.sampled hdue, htot.trans (congrArg Tally.tot hdue), .of_due hp hdue⟩

end Config.Samples

namespace Decoder

/-- The states that a sequence of calls returns. -/
def returned (d : Decoder) : List Config → List State
  | [] => []
  | cfg :: cfgs => (d.decode cfg).st :: (d.decode cfg).returned cfgs

/-- Those that are marked as samples of an instruction. -/
def samples (d : Decoder) (cfgs : List Config) : List State :=
  (d.returned cfgs).filter (·.type.instruction)

theorem samples_cons (d : Decoder) (cfg : Config) (cfgs : List Config) :
    d.samples (cfg :: cfgs) =
      if (d.decode cfg).st.type.instruction then
        (d.decode cfg).st :: (d.decode cfg).samples cfgs
      else (d.decode cfg).samples cfgs := List.filter_cons

variable {cfgs : List Config}

theorem run_lt (hp : 1 ≤ p) (hcfgs : ∀ cfg ∈ cfgs, cfg.Samples p) (hd : d.smp.periodInsnCnt < p) :
    (d.run cfgs).smp.periodInsnCnt < p := by
  induction cfgs generalizing d with
  | nil => exact hd
  | cons cfg cfgs ih =>
    have hdec := (hcfgs cfg List.mem_cons_self).decode_lt hp hd
    exact ih (fun c hc => hcfgs c (List.mem_cons_of_mem _ hc)) hdec

/-- No call of the run loses a sample. -/
def KeepsSamples (d : Decoder) (cfgs : List Config) : Prop :=
  ∀ pre cfg post, cfgs = pre ++ cfg :: post →
    ∀ f, DecodeCalls cfg (d.run pre) .tnt f → ¬ LosesSample cfg f

theorem KeepsSamples.tail (h : d.KeepsSamples (cfg :: cfgs)) :
    (d.decode cfg).KeepsSamples cfgs := by
  intro pre cfg' post heq
  exact h (cfg :: pre) cfg' post (congrArg (cfg :: ·) heq)

theorem KeepsSamples.nil : d.KeepsSamples [] := by
  intro pre cfg post heq
  simp at heq

theorem KeepsSamples.cons (hhead : ∀ f, DecodeCalls cfg d .tnt f → ¬ LosesSample cfg f)
    (htail : (d.decode cfg).KeepsSamples cfgs) : d.KeepsSamples (cfg :: cfgs) := by
  intro pre cfg' post heq
  cases pre with
  | nil =>
    cases heq
    exact hhead
  | cons cfg₀ pre =>
    cases heq
    exact htail pre cfg' post rfl

theorem samples_chain (hp : 1 ≤ p) (hcfgs : ∀ cfg ∈ cfgs, cfg.Samples p) (hd : CountsFrom p b d)
    (hkeep : d.KeepsSamples cfgs) :
    (∀ s ∈ (d.samples cfgs).head?, s.totInsnCnt = b + p) ∧
      (d.samples cfgs).IsChain fun s s' => s'.totInsnCnt = s.totInsnCnt + p := by
  induction cfgs generalizing d b with
  | nil => simp [samples, returned]
  | cons cfg cfgs ih =>
    have hrest : ∀ c ∈ cfgs, c.Samples p := fun c hc => hcfgs c (List.mem_cons_of_mem _ hc)
    have hdec := (hcfgs cfg List.mem_cons_self).decode hp hd (hkeep [] cfg cfgs rfl)
    rw [samples_cons]
    obtain ⟨hty, hcnt⟩ | ⟨hty, htot, hcnt⟩ := hdec
    · rw [if_neg (by simp [hty])]
      exact ih hrest hcnt hkeep.tail
    · rw [if_pos hty]
      obtain ⟨hhead, hchain⟩ := ih hrest hcnt hkeep.tail
      refine ⟨fun s hs => ?_, hchain.cons fun s hs => ?_⟩
      · rw [← Option.mem_some.mp hs, htot]
      · rw [hhead s hs, htot]

end Decoder

/-- The decoder samples every `p` instructions of code that `intel_pt_walk_next_insn` walks. -/
def Config.SamplesCode (cfg : Config) (p : UInt64) : Prop :=
  cfg.periodType = .instructions ∧ cfg.period = p ∧ WalksCode cfg.walkInsn

theorem Config.SamplesCode.samples (h : cfg.SamplesCode p) : cfg.Samples p :=
  ⟨h.1, h.2.1, fun ip toIp max hmax => (h.2.2 ip toIp max).within hmax⟩

/-- After every call and in front of every walk `period_insn_cnt` is below the period, so
`intel_pt_next_sample` gives a number from 1 to the period. -/
theorem insn_samples_spaced (hp : 1 ≤ p) (trace : List TraceItem) (cfgs : List Config)
    (hcfgs : ∀ cfg ∈ cfgs, cfg.SamplesCode p) :
    (∀ pre post, cfgs = pre ++ post → ((Decoder.new trace).run pre).smp.periodInsnCnt < p) ∧
    (∀ pre cfg post, cfgs = pre ++ cfg :: post →
      ∀ c f now, DecodeCalls cfg ((Decoder.new trace).run pre) c f →
        f.smp.periodInsnCnt < p ∧
          1 ≤ (f.smp.nextSample cfg now).1 ∧ (f.smp.nextSample cfg now).1 ≤ p) ∧
    ((Decoder.new trace).KeepsSamples cfgs →
      ((Decoder.new trace).samples cfgs).IsChain fun s s' => s'.totInsnCnt = s.totInsnCnt + p) := by
  have hsamples : ∀ cfg ∈ cfgs, cfg.Samples p := fun cfg hc => (hcfgs cfg hc).samples
  have hstart : (Decoder.new trace).smp.periodInsnCnt < p := by
    show (0 : UInt64) < p
    grind
  have hrun : ∀ pre post, cfgs = pre ++ post →
      ((Decoder.new trace).run pre).smp.periodInsnCnt < p := by
    rintro pre post rfl
    exact Decoder.run_lt hp (fun cfg hc => hsamples cfg (List.mem_append_left _ hc)) hstart
  refine ⟨hrun, fun pre cfg post heq c f now hcall => ?_, fun hkeep => ?_⟩
  · have hcfg := hsamples cfg (by simp [heq])
    have hlt := hcfg.decodeCalls_lt hp (hrun pre _ heq) hcall
    rw [Sampling.nextSample, hcfg.type, hcfg.period]
    simp only
    grind
  · exact (Decoder.samples_chain hp hsamples (.of_lt hstart) hkeep).2

def regJumpEnv : Env Unit where
  mem ip := if ip = 0x1001 then 0xff else 0x90
  decode buf _ :=
    match buf.head? with
    | some 0xff => some { op := .jmp, branch := .indirect, length := 2 }
    | _ => some { length := 1 }
  is64Bit _ := true
  hash32 key bits := key.toNat % 2 ^ bits
  stat _ := none
  malloc _ := true
  kernelStart := 0xffff800000000000
  unknownThread := ⟨fun _ _ => none, nofun⟩

def regJumpMaps : Layout Unit where
  find _ ip :=
    if 0x1000 ≤ ip ∧ ip < 0x2000 then some { start := 0x1000, endAddr := 0x2000, dso := () }
    else none
  holds h := by
    split_ifs at h with hin
    cases h
    exact hin

/-- Every instruction is a sample. -/
def regJumpConfig : Config where
  walkInsn ip toIp max :=
    (walkNextInsn regJumpEnv (afterCalls regJumpEnv {} []) ⟨some regJumpMaps, ip, toIp, max⟩).1
  branchEnable := true
  period := 1
  periodType := .instructions

theorem samplesCode_regJumpConfig : regJumpConfig.SamplesCode 1 :=
  ⟨rfl, rfl, fun _ _ _ => .walk regJumpEnv {} [] (some regJumpMaps) rfl⟩

/-- PSB, FUP at the first instruction, PSBEND. -/
def regJumpStart : List UInt8 := psbStr ++ [0xdd, 0, 0x10, 0, 0, 0, 0, 0, 0] ++ [0x02, 0x23]

/-- The jump is traced with its TIP. -/
def regJumpTrace : List TraceItem := [.buffer { bytes := regJumpStart ++ [0x2d, 0, 0x30] }]

theorem not_traceCalls_tnt {f : Decoder}
    (ht : (d.getNextPacket .trace).2.rd.packet.type = .tip) : ¬ TraceCalls cfg d .tnt f := by
  rintro ⟨hfetch, hv, hcall⟩
  rename_i d' noTip e
  have ht : d'.rd.packet.type = .tip := by
    rw [hfetch] at ht
    exact ht
  cases hv with
  | refl =>
    cases hcall with
    | tnt htnt => exact nomatch ht.symm.trans htnt
  | again hb _ =>
    have hturn : ∃ r, d'.tracePacket cfg false = .stop r := by
      rw [Decoder.tracePacket, ht]
      exact ⟨_, rfl⟩
    obtain ⟨r, hturn⟩ := hturn
    unfold Decoder.tracePass at hb
    rw [hturn] at hb
    cases hb

theorem not_decodeCalls_tnt {f : Decoder} (hst : (d.startState.resume cfg).1 ≠ .nolink)
    (hs : d.pktState ≠ .tnt ∧ d.pktState ≠ .fupNoTip)
    (ht : d.pktState = .inSync → (d.startState.getNextPacket .trace).2.rd.packet.type = .tip) :
    ¬ DecodeCalls cfg d .tnt f := by
  rintro ⟨e, hv, hcall⟩
  cases hv with
  | refl =>
    cases hcall with
    | inSync hs' hcall => exact not_traceCalls_tnt (ht hs') hcall
    | tnt hs' _ => exact hs.1 hs'
    | afterTnt hs' _ _ => exact hs.1 hs'
    | afterFup hs' _ _ => exact hs.2 hs'
  | again hb _ =>
    unfold Decoder.decodePass at hb
    split at hb
    next heq => exact absurd (congrArg Prod.fst heq) hst
    · cases hb

theorem keepsSamples_regJumpTrace :
    (Decoder.new regJumpTrace).KeepsSamples [regJumpConfig, regJumpConfig, regJumpConfig] := by
  refine .cons (fun f hcall => ?_) (.cons (fun f hcall => ?_) (.cons (fun f hcall => ?_) .nil))
  all_goals
    refine absurd hcall (not_decodeCalls_tnt ?_ ?_ ?_)
  all_goals decide +kernel

/-- Both instructions are returned as samples, one instruction apart. -/
theorem insn_samples_spaced_jump :
    let d := Decoder.new regJumpTrace
    let cfgs := [regJumpConfig, regJumpConfig, regJumpConfig]
    (d.samples cfgs).map (·.totInsnCnt) = [1, 2] ∧
      (d.samples cfgs).IsChain (fun s s' => s'.totInsnCnt = s.totInsnCnt + 1) ∧
      (d.run cfgs).smp.periodInsnCnt < 1 := by
  have hspec := insn_samples_spaced (p := 1) (by decide) regJumpTrace
    [regJumpConfig, regJumpConfig, regJumpConfig] (by simp [samplesCode_regJumpConfig])
  exact ⟨by decide +kernel, hspec.2.2 keepsSamples_regJumpTrace, hspec.1 _ [] rfl⟩

theorem insn_sample_lost :
    let bytes := regJumpStart ++ [0x06]
    let trace : List TraceItem :=
      [.buffer { bytes := bytes }, .buffer { bytes := bytes, consecutive := false }]
    let cfgs := [regJumpConfig, regJumpConfig, regJumpConfig, regJumpConfig]
    (∀ cfg ∈ cfgs, cfg.SamplesCode 1) ∧
      ((Decoder.new trace).returned cfgs).map (fun s => (s.err, s.type.instruction, s.totInsnCnt)) =
        [(none, false, 0), (none, true, 1), (none, false, 2), (none, true, 3)] := by
  refine ⟨by simp [samplesCode_regJumpConfig], ?_⟩
  decide +kernel

end RPerf.Decode
