import RPerf.Code.WalkTo
import RPerf.Decode.Invariants

/-!
# Following the code to an address

`intel_pt_walk_insn` with an address to stop at, over a code layout.
-/

namespace RPerf.Decode

open Lib Packets Code

def Sampling.due (s : Sampling) (cfg : Config) (now : UInt64) : UInt64 :=
  ({ s with mtcInsn := true }.nextSample cfg now).1

def Sampling.walk (s : Sampling) (cfg : Config) (now n : UInt64) : Sampling :=
  let next := { s with mtcInsn := true }.nextSample cfg now
  if next.1 ≠ 0 ∧ next.1 ≤ n then (next.2.count n).sample cfg (now + n) else next.2.count n

/-- The code leads from an address to `x`. -/
inductive Approaches (code : Program) (cfg : Config) (x : UInt64) :
    ℕ → UInt64 → Sampling → UInt64 → Prop
  | arrives {ip s now n} : Leg code x ip n x → s.due cfg now = 0 ∨ n < (s.due cfg now).toNat →
    Approaches code cfg x 0 ip s now
  | branch {ip s now n a insn j} : Leg code x ip n a → a ≠ x → code.insnAt a = some insn →
    insn.branch = .unconditional → s.due cfg now = 0 ∨ n < (s.due cfg now).toNat →
    Approaches code cfg x j (insn.target a) (s.walk cfg now (UInt64.ofNat (n + 1)))
      (now + UInt64.ofNat (n + 1)) →
    Approaches code cfg x (j + 1) ip s now
  | sample {ip s now n a insn j} : Leg code x ip n a → a ≠ x → code.insnAt a = some insn →
    insn.branch = .noBranch → (s.due cfg now).toNat = n + 1 →
    Approaches code cfg x j (insn.next a) (s.walk cfg now (UInt64.ofNat (n + 1)))
      (now + UInt64.ofNat (n + 1)) →
    Approaches code cfg x (j + 1) ip s now

/-- The time that samples are taken by. -/
def Decoder.now (d : Decoder) : UInt64 := d.clk.timestamp + d.clk.timestampInsnCnt

structure Passed (d e : Decoder) : Prop where
  tracked : e.tracked = d.tracked
  fup : e.fup = d.fup
  pktState : e.pktState = d.pktState

def Decoder.sampled (d : Decoder) (cfg : Config) (w : Walked) : Decoder :=
  let next := { d.smp with mtcInsn := true }.nextSample cfg d.now
  if next.1 ≠ 0 ∧ next.1 ≤ w.insnCnt then (d.walked next.2 w).sampleInsn cfg
  else d.walked next.2 w

namespace Passed

theorem trans {d e f : Decoder} (h : Passed d e) (h' : Passed e f) : Passed d f where
  tracked := h'.tracked.trans h.tracked
  fup := h'.fup.trans h.fup
  pktState := h'.pktState.trans h.pktState

theorem sampled (d : Decoder) (cfg : Config) (w : Walked) : Passed d (d.sampled cfg w) := by
  have hsmp := Decoder.nextSample_sampleTimestamp { d.smp with mtcInsn := true } cfg d.now
  simp only [Decoder.sampled]
  generalize { d.smp with mtcInsn := true }.nextSample cfg d.now = next at hsmp ⊢
  have hw : (d.walked next.2 w).tracked = d.tracked := tracked_of_smp rfl hsmp
  split_ifs
  · have hq : Quiet none _ ((d.walked next.2 w).sampleInsn cfg) := Decoder.sampleInsn_quiet _ cfg
    exact ⟨hq.tracked.trans hw, rfl, rfl⟩
  · exact ⟨hw, rfl, rfl⟩

end Passed

section

variable {code : Program} {cfg : Config} {x : UInt64} {d : Decoder} {j : ℕ}

theorem sampled_smp (d : Decoder) (cfg : Config) (w : Walked) :
    (d.sampled cfg w).smp = d.smp.walk cfg d.now w.insnCnt := by
  simp only [Decoder.sampled, Sampling.walk]
  split_ifs
  · simp only [Decoder.sampleInsn, Decoder.walked, Decoder.now, UInt64.add_assoc]
  · rfl

theorem sampled_rest (d : Decoder) (cfg : Config) (w : Walked) :
    (d.sampled cfg w).ip = w.ip ∧ (d.sampled cfg w).now = d.now + w.insnCnt ∧
      (d.sampled cfg w).prog = d.prog := by
  simp only [Decoder.sampled]
  split_ifs <;>
    simp only [Decoder.sampleInsn, Decoder.walked, Decoder.now, UInt64.add_assoc, and_self]

theorem walkInsn_eq_arrive {w : Walked} (hw : cfg.walkInsn d.ip x (d.smp.due cfg d.now) = w)
    (herr : w.err = none) (hx : x ≠ 0 → w.ip ≠ x) :
    d.walkInsn cfg x = (d.sampled cfg w).arrive cfg w.insn := by
  have hw' : cfg.walkInsn d.ip x ({ d.smp with mtcInsn := true }.nextSample cfg
      (d.clk.timestamp + d.clk.timestampInsnCnt)).1 = w := hw
  simp only [Decoder.walkInsn, hw', herr]
  rw [if_neg fun h => hx h.1 h.2]
  rfl

theorem walkInsn_arrives (hcode : cfg.walkInsn = code.walkInsn) (hx : x ≠ 0)
    (h : Approaches code cfg x 0 d.ip d.smp d.now) :
    ∃ insn e, d.walkInsn cfg x = (.again, insn, e) ∧ e.ip = x ∧ Passed d e := by
  cases h with
  | @arrives ip s now n hleg hdue =>
    obtain ⟨insn, hw⟩ := Program.walkInsn_arrives hx hleg hdue
    have hw' : cfg.walkInsn d.ip x ({ d.smp with mtcInsn := true }.nextSample cfg
        (d.clk.timestamp + d.clk.timestampInsnCnt)).1 =
          { insn := insn, insnCnt := UInt64.ofNat n, ip := x } := hcode ▸ hw
    have hq : Quiet none d (d.walkInsn cfg x).2.2 := d.walkInsn_quiet cfg x
    simp only [Decoder.walkInsn, hw'] at hq ⊢
    rw [if_pos ⟨hx, rfl⟩] at hq ⊢
    exact ⟨_, _, rfl, rfl, hq.tracked, rfl, rfl⟩

theorem arrive_noBranch (d : Decoder) (cfg : Config) {insn : Insn} (hno : insn.branch = .noBranch) :
    ∃ e, d.arrive cfg insn = (.ret, insn, e) ∧ Passed d e ∧ e.ip = insn.next d.ip ∧
      e.smp = d.smp ∧ e.now = d.now := by
  rw [Decoder.arrive, if_pos hno]
  exact ⟨_, rfl, ⟨rfl, rfl, rfl⟩, rfl, rfl, rfl⟩

theorem callOrRet_passed (hmalloc : ∀ n, cfg.malloc n = true) (insn : Insn) :
    ∃ e, d.callOrRet cfg insn = (true, e) ∧ Passed d e ∧ e.ip = d.ip ∧ e.smp = d.smp ∧
      e.now = d.now ∧ e.prog = d.prog := by
  unfold Decoder.callOrRet
  split_ifs
  · obtain ⟨stack, hs⟩ := Option.isSome_iff_exists.mp (d.stack.push_isSome (insn.next d.ip))
    rw [hmalloc, hs]
    exact ⟨_, rfl, ⟨rfl, rfl, rfl⟩, rfl, rfl, rfl, rfl⟩
  all_goals exact ⟨_, rfl, ⟨rfl, rfl, rfl⟩, rfl, rfl, rfl, rfl⟩

theorem arrive_unconditional (hmalloc : ∀ n, cfg.malloc n = true) (hprog : d.prog.noProgress ≤ 1)
    {insn : Insn} (hbr : insn.branch = .unconditional) :
    ∃ e, d.arrive cfg insn = (.ret, insn, e) ∧ Passed d e ∧ e.ip = insn.target d.ip ∧
      e.smp = d.smp ∧ e.now = d.now := by
  obtain ⟨e, hcall, hpassed, hip, hsmp, hnow, hp⟩ := callOrRet_passed (d := d) hmalloc insn
  have hstuck : (e.prog.unconditional (insn.target e.ip)).1 = false := by
    rw [hp]
    simp only [Progress.unconditional]
    split_ifs <;> first | rfl | omega
  rw [Decoder.arrive, if_neg (by simp [hbr]), hcall]
  simp only [hbr, if_true, Decoder.unconditional, hstuck, Bool.false_eq_true, if_false]
  exact ⟨_, rfl, hpassed.trans ⟨rfl, rfl, rfl⟩, by rw [← hip]; rfl, hsmp, hnow⟩

theorem walkInsn_stops (hcode : cfg.walkInsn = code.walkInsn) (hmalloc : ∀ n, cfg.malloc n = true)
    (hprog : d.prog.noProgress ≤ 1) (h : Approaches code cfg x (j + 1) d.ip d.smp d.now) :
    ∃ insn e, d.walkInsn cfg x = (.ret, insn, e) ∧ Passed d e ∧
      Approaches code cfg x j e.ip e.smp e.now := by
  cases h with
  | @branch _ _ _ n a insn _ hleg ha hat hbr hdue hrest =>
    have hw := Program.walkInsn_stops hleg ha hat (.inl ⟨by simp [hbr], hdue⟩)
    rw [← hcode] at hw
    rw [walkInsn_eq_arrive hw rfl fun _ => ha]
    obtain ⟨hip, hnow, hprog'⟩ := sampled_rest d cfg
      { insn := insn, insnCnt := UInt64.ofNat (n + 1), ip := a }
    obtain ⟨e, he, hpassed, hip', hsmp', hnow'⟩ := arrive_unconditional hmalloc
      (hprog' ▸ hprog) hbr
    refine ⟨insn, e, he, (Passed.sampled d cfg _).trans hpassed, ?_⟩
    rw [hip', hsmp', hnow', hip, hnow, sampled_smp]
    exact hrest
  | @sample _ _ _ n a insn _ hleg ha hat hno hdue hrest =>
    have hw := Program.walkInsn_stops hleg ha hat (.inr ⟨hno, hdue⟩)
    rw [← hcode] at hw
    rw [walkInsn_eq_arrive hw rfl fun _ => ha]
    obtain ⟨hip, hnow, -⟩ := sampled_rest d cfg
      { insn := insn, insnCnt := UInt64.ofNat (n + 1), ip := a }
    obtain ⟨e, he, hpassed, hip', hsmp', hnow'⟩ := arrive_noBranch (d.sampled cfg
      { insn := insn, insnCnt := UInt64.ofNat (n + 1), ip := a }) cfg hno
    refine ⟨insn, e, he, (Passed.sampled d cfg _).trans hpassed, ?_⟩
    rw [hip', hsmp', hnow', hip, hnow, sampled_smp]
    exact hrest

end

inductive Reaches (code : Program) (x : UInt64) : ℕ → UInt64 → Prop
  | arrives {ip n} : Leg code x ip n x → Reaches code x 0 ip
  | branch {ip n a insn k} : Leg code x ip n a → a ≠ x → code.insnAt a = some insn →
    insn.branch = .unconditional → Reaches code x k (insn.target a) → Reaches code x (k + 1) ip

theorem Reaches.approaches {code : Program} {cfg : Config} {x ip : UInt64} {k : ℕ}
    (hcfg : cfg.periodType = .none ∨ cfg.periodType = .mtc) (h : Reaches code x k ip)
    (s : Sampling) (now : UInt64) : Approaches code cfg x k ip s now := by
  have hdue (s : Sampling) (now : UInt64) : s.due cfg now = 0 := by
    rcases hcfg with h | h <;> simp [Sampling.due, Sampling.nextSample, h]
  induction h generalizing s now with
  | arrives hleg => exact .arrives hleg (.inl (hdue s now))
  | branch hleg ha hat hbr _ ih => exact .branch hleg ha hat hbr (.inl (hdue s now)) (ih _ _)

end RPerf.Decode
