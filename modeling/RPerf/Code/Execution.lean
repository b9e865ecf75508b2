import RPerf.Code.NextInsn

/-!
# Executions of a piece of code

A code layout maps addresses to instructions. `Program.walkInsn` is the walk of
`intel_pt_walk_next_insn` over such a layout, without maps and caches.
-/

namespace RPerf.Code

open Lib Decode

def RegularInsn (insn : Insn) : Prop :=
  match insn.branch with
  | .noBranch => insn.op = .other
  | .indirect => True
  | .unconditional => insn.op = .jmp ∨ insn.op = .call
  | .conditional => insn.op = .jcc ∨ insn.op = .loop

/-- A code layout. -/
structure Program where
  insnAt : UInt64 → Option Insn
  regular : ∀ ip insn, insnAt ip = some insn → RegularInsn insn

theorem lt_walkBound {D : UInt64 → ℕ → Prop} (hunique : ∀ c m k, D c m → D c k → m = k) {n : ℕ}
    (hdrop : ∀ i ≤ n, ∃ c, D c (n - i)) : n < walkBound := by
  choose! f hf using hdrop
  have hinj : Set.InjOn (fun i => (f i).toNat) (Finset.range (n + 1)) := by
    intro i hi j hj hij
    simp only [Finset.coe_range, Set.mem_Iio] at hi hj
    have heq : f i = f j := UInt64.toNat_inj.mp hij
    have hdist := hunique _ _ _ (hf i (by omega)) (heq ▸ hf j (by omega))
    omega
  have hmaps : Set.MapsTo (fun i => (f i).toNat) (Finset.range (n + 1))
      (Finset.range walkBound) := by
    intro i _
    simpa [walkBound] using (f i).toNat_lt
  have hcard := Finset.card_le_card_of_injOn _ hmaps hinj
  simpa using hcard

namespace Program

def walkPass (code : Program) (toIp maxInsnCnt : UInt64) (s : UInt64 × UInt64) :
    Pass (UInt64 × UInt64) Walked :=
  match code.insnAt s.1 with
  | none => .leave { err := some .other, ip := s.1 }
  | some insn =>
    let insnCnt := s.2 + 1
    if insn.branch ≠ .noBranch then .leave { insn := insn, insnCnt := insnCnt, ip := s.1 }
    else if maxInsnCnt ≠ 0 ∧ maxInsnCnt ≤ insnCnt then
      .leave { insn := insn, insnCnt := insnCnt, ip := s.1 }
    else
      let ip := insn.next s.1
      if toIp ≠ 0 ∧ ip = toIp then .leave { insn := insn, insnCnt := insnCnt, ip := ip }
      else .again (ip, insnCnt)

def walkInsn (code : Program) (ip toIp maxInsnCnt : UInt64) : Walked :=
  if toIp ≠ 0 ∧ ip = toIp then { ip := ip }
  else
    loop (code.walkPass toIp maxInsnCnt) (fun s => { err := some .other, ip := s.1 }) walkBound
      (ip, 0)

inductive Straight (code : Program) : UInt64 → ℕ → UInt64 → Prop
  | here {ip} : Straight code ip 0 ip
  | step {ip insn n a} : code.insnAt ip = some insn → insn.branch = .noBranch →
    Straight code (insn.next ip) n a → Straight code ip (n + 1) a

variable {code : Program}

variable {ip a : UInt64} {n : ℕ} {insn : Insn}

theorem Straight.unique {b : UInt64} {m : ℕ} (h : Straight code ip n a) (h' : Straight code ip m b)
    {insn' : Insn} (ha : code.insnAt a = some insn) (hbr : insn.branch ≠ .noBranch)
    (hb : code.insnAt b = some insn') (hbr' : insn'.branch ≠ .noBranch) : n = m := by
  induction h generalizing m with
  | here =>
    cases h' with
    | here => rfl
    | step hat hno _ =>
      cases ha.symm.trans hat
      exact absurd hno hbr
  | step hat hno _ ih =>
    cases h' with
    | here =>
      cases hat.symm.trans hb
      exact absurd hno hbr'
    | step hat' _ h' =>
      cases hat.symm.trans hat'
      rw [ih h' ha]

theorem Straight.drop (h : Straight code ip n a) : ∀ i ≤ n, ∃ c, Straight code c (n - i) a := by
  induction h with
  | here =>
    intro i hi
    exact ⟨_, by simpa using Straight.here⟩
  | @step ip insn n a hat hno h ih =>
    intro i hi
    cases i with
    | zero => exact ⟨ip, .step hat hno h⟩
    | succ i =>
      obtain ⟨c, hc⟩ := ih i (by omega)
      exact ⟨c, by simpa using hc⟩

theorem Straight.length_lt (h : Straight code ip n a) (ha : code.insnAt a = some insn)
    (hbr : insn.branch ≠ .noBranch) : n < walkBound :=
  lt_walkBound (D := fun c m => Straight code c m a) (fun _ _ _ hn hm => hn.unique hm ha hbr ha hbr)
    h.drop

theorem loop_to_branch (h : Straight code ip n a) (ha : code.insnAt a = some insn)
    (hbr : insn.branch ≠ .noBranch) {fuel : ℕ} (hfuel : n < fuel) (cnt : UInt64)
    (stuck : UInt64 × UInt64 → Walked) :
    loop (code.walkPass 0 0) stuck fuel (ip, cnt) =
      { insn := insn, insnCnt := cnt + UInt64.ofNat (n + 1), ip := a } := by
  induction h generalizing fuel cnt with
  | @here a =>
    obtain ⟨fuel, rfl⟩ : ∃ k, fuel = k + 1 := ⟨fuel - 1, by omega⟩
    apply loop_of_leave
    simp [walkPass, ha, hbr]
  | @step ip i n a hat hno _ ih =>
    obtain ⟨fuel, rfl⟩ : ∃ k, fuel = k + 1 := ⟨fuel - 1, by omega⟩
    have hpass : code.walkPass 0 0 (ip, cnt) = .again (i.next ip, cnt + 1) := by
      simp [walkPass, hat, hno]
    rw [loop_of_again fuel hpass, ih ha (by omega), UInt64.ofNat_add (n + 1) 1]
    congr 1
    rw [UInt64.add_assoc, UInt64.add_comm 1]
    rfl

theorem walkInsn_to_branch (h : Straight code ip n a) (ha : code.insnAt a = some insn)
    (hbr : insn.branch ≠ .noBranch) :
    code.walkInsn ip 0 0 = { insn := insn, insnCnt := UInt64.ofNat (n + 1), ip := a } := by
  rw [walkInsn, if_neg (by simp), loop_to_branch h ha hbr (h.length_lt ha hbr), UInt64.zero_add]

end Program

structure Step where
  ip : UInt64
  insn : Insn
  taken : Bool := true
  dest : UInt64 := 0

namespace Step

/-- The address executed next. -/
def after (s : Step) : UInt64 :=
  match s.insn.branch with
  | .noBranch => s.insn.next s.ip
  | .unconditional => s.insn.target s.ip
  | .conditional => if s.taken then s.insn.target s.ip else s.insn.next s.ip
  | .indirect => s.dest

def traced (s : Step) : Bool := s.insn.branch = .conditional ∨ s.insn.branch = .indirect

def jump (s : Step) : Option (UInt64 × UInt64) :=
  match s.insn.branch with
  | .noBranch => none
  | .unconditional | .indirect => some (s.ip, s.after)
  | .conditional => if s.taken then some (s.ip, s.after) else none

end Step

def pushes (insn : Insn) : Bool :=
  insn.op = .call ∧ (insn.branch ≠ .unconditional ∨ insn.rel ≠ 0)

def restack (stack : List UInt64) (ip : UInt64) (insn : Insn) : List UInt64 :=
  if pushes insn then insn.next ip :: stack
  else if insn.op = .ret then stack.tail
  else stack

/-- The instructions are executed one after the other, from `ip` on. -/
def Executes (code : Program) : UInt64 → List Step → Prop
  | _, [] => True
  | ip, s :: steps => s.ip = ip ∧ code.insnAt ip = some s.insn ∧ Executes code s.after steps

def InARow (n : ℕ) : ℕ → List Step → Prop
  | _, [] => True
  | c, s :: steps =>
    match s.insn.branch with
    | .noBranch => InARow n c steps
    | .unconditional => c < n ∧ InARow n (c + 1) steps
    | .conditional | .indirect => InARow n 0 steps

/-- The branches made, up to the last one that the processor reports. -/
def jumps : List Step → List (UInt64 × UInt64)
  | [] => []
  | s :: steps => if (s :: steps).any Step.traced then s.jump.toList ++ jumps steps else []

def toBranch (steps : List Step) : List Step := steps.dropWhile fun s => s.insn.branch = .noBranch

section

variable {code : Program}

theorem Executes.toBranch {steps : List Step} {ip : UInt64} (h : Executes code ip steps)
    (ht : steps.any Step.traced) :
    ∃ n s rest, toBranch steps = s :: rest ∧ code.Straight ip n s.ip ∧
      s.insn.branch ≠ .noBranch ∧ code.insnAt s.ip = some s.insn ∧ Executes code s.after rest := by
  induction steps generalizing ip with
  | nil => cases ht
  | cons s steps ih =>
    obtain ⟨rfl, hat, hexec⟩ := h
    by_cases hbr : s.insn.branch = .noBranch
    · have htr : steps.any Step.traced := by simpa [Step.traced, hbr] using ht
      obtain ⟨n, s', rest, hs, hst, hrest⟩ := ih hexec htr
      refine ⟨n + 1, s', rest, ?_, .step hat hbr ?_, hrest⟩
      · simpa [Code.toBranch, hbr] using hs
      · simpa [Step.after, hbr] using hst
    · exact ⟨0, s, steps, by simp [Code.toBranch, hbr], .here, hbr, hat, hexec⟩

theorem any_toBranch (steps : List Step) :
    (toBranch steps).any Step.traced = steps.any Step.traced := by
  induction steps with
  | nil => rfl
  | cons s steps ih =>
    by_cases hbr : s.insn.branch = .noBranch
    · simpa [toBranch, hbr, Step.traced] using ih
    · simp [toBranch, hbr]

theorem jumps_toBranch (steps : List Step) : jumps (toBranch steps) = jumps steps := by
  induction steps with
  | nil => rfl
  | cons s steps ih =>
    by_cases hbr : s.insn.branch = .noBranch
    · have hdrop : toBranch (s :: steps) = toBranch steps := by simp [toBranch, hbr]
      have htr : s.traced = false := by simp [Step.traced, hbr]
      have hjump : s.jump = none := by simp [Step.jump, hbr]
      rw [hdrop, ih, jumps, List.any_cons, htr, hjump, Bool.false_or, Option.toList_none,
        List.nil_append]
      by_cases hany : steps.any Step.traced = true
      · rw [if_pos hany]
      · rw [if_neg hany]
        cases steps with
        | nil => rfl
        | cons t steps => rw [jumps, if_neg hany]
    · simp [toBranch, hbr]

theorem InARow.toBranch {m c : ℕ} {steps : List Step} (h : InARow m c steps) :
    InARow m c (toBranch steps) := by
  induction steps with
  | nil => trivial
  | cons s steps ih =>
    by_cases hbr : s.insn.branch = .noBranch
    · have hdrop : Code.toBranch (s :: steps) = Code.toBranch steps := by
        simp [Code.toBranch, hbr]
      rw [hdrop]
      exact ih (by simpa [InARow, hbr] using h)
    · simpa [Code.toBranch, hbr] using h

end

inductive Ahead (code : Program) : UInt64 → ℕ → Prop
  | traced {ip insn} : code.insnAt ip = some insn →
    insn.branch = .conditional ∨ insn.branch = .indirect → Ahead code ip 0
  | straight {ip insn k} : code.insnAt ip = some insn → insn.branch = .noBranch →
    Ahead code (insn.next ip) k → Ahead code ip k
  | jump {ip insn k} : code.insnAt ip = some insn → insn.branch = .unconditional →
    Ahead code (insn.target ip) k → Ahead code ip (k + 1)

section

variable {code : Program}

theorem Ahead.unique {ip : UInt64} {k j : ℕ} (h : Ahead code ip k) (h' : Ahead code ip j) :
    k = j := by
  induction h generalizing j with
  | traced hat hbr =>
    cases h' with
    | traced => rfl
    | straight hat' hbr' _ | jump hat' hbr' _ =>
      cases hat.symm.trans hat'
      simp [hbr'] at hbr
  | straight hat hbr _ ih =>
    cases h' with
    | straight hat' _ h' =>
      cases hat.symm.trans hat'
      exact ih h'
    | traced hat' hbr' | jump hat' hbr' _ =>
      cases hat.symm.trans hat'
      simp [hbr] at hbr'
  | jump hat hbr _ ih =>
    cases h' with
    | jump hat' _ h' =>
      cases hat.symm.trans hat'
      rw [ih h']
    | traced hat' hbr' | straight hat' hbr' _ =>
      cases hat.symm.trans hat'
      simp [hbr] at hbr'

theorem Program.Straight.ahead {ip a : UInt64} {n k : ℕ} (h : code.Straight ip n a)
    (ha : Ahead code a k) : Ahead code ip k := by
  induction h with
  | here => exact ha
  | step hat hbr _ ih => exact .straight hat hbr (ih ha)

theorem Executes.ahead {steps : List Step} {ip : UInt64} (h : Executes code ip steps)
    (ht : steps.any Step.traced) : ∃ k, Ahead code ip k := by
  induction steps generalizing ip with
  | nil => cases ht
  | cons s steps ih =>
    obtain ⟨rfl, hat, hexec⟩ := h
    have hrest : ¬ s.traced → steps.any Step.traced := by
      intro hs
      simpa [hs] using ht
    cases hbr : s.insn.branch with
    | conditional | indirect => exact ⟨0, .traced hat (by simp [hbr])⟩
    | noBranch =>
      obtain ⟨k, hk⟩ := ih hexec (hrest (by simp [Step.traced, hbr]))
      exact ⟨k, .straight hat hbr (by simpa [Step.after, hbr] using hk)⟩
    | unconditional =>
      obtain ⟨k, hk⟩ := ih hexec (hrest (by simp [Step.traced, hbr]))
      exact ⟨k + 1, .jump hat hbr (by simpa [Step.after, hbr] using hk)⟩

end

end RPerf.Code
