import Mathlib.Logic.Function.Basic
import Mathlib.Tactic.Common

/-!
# Interleaved processes

Processes with local states of one kind work on a shared state, one step at a time and in
any order; an environment works on the shared state as well.
-/

namespace RPerf.Lib

open Function

variable {ι L S α β : Type*}

/-- The local states of all processes, with the state they share. -/
structure Concurrent (ι L S : Type*) where
  locals : ι → L
  shared : S

/-- A step: the process that makes it and its choice, or a step of the environment. -/
inductive Turn (ι α β : Type*)
  | process (i : ι) (a : α)
  | environment (b : β)
  deriving DecidableEq, Repr

structure Program (ι L S α β : Type*) where
  process : ι → α → L → S → Option (L × S)
  environment : β → S → Option S

variable [DecidableEq ι]

def Program.step (prog : Program ι L S α β) (c : Concurrent ι L S) :
    Turn ι α β → Option (Concurrent ι L S)
  | .process i a =>
    (prog.process i a (c.locals i) c.shared).map fun (l, g) => ⟨update c.locals i l, g⟩
  | .environment b => (prog.environment b c.shared).map fun g => ⟨c.locals, g⟩

def Program.run (prog : Program ι L S α β) (c : Concurrent ι L S) :
    List (Turn ι α β) → Option (Concurrent ι L S)
  | [] => some c
  | turn :: turns => (prog.step c turn).bind fun c' => prog.run c' turns

/-- Every turn of a run meets a condition on the state before it. -/
def Program.Along (prog : Program ι L S α β) (P : Concurrent ι L S → Turn ι α β → Prop)
    (c : Concurrent ι L S) : List (Turn ι α β) → Prop
  | [] => True
  | turn :: turns => P c turn ∧ ∀ c', prog.step c turn = some c' → prog.Along P c' turns

variable {prog : Program ι L S α β} {P : Concurrent ι L S → Turn ι α β → Prop}
  {c c' : Concurrent ι L S} {turns : List (Turn ι α β)}

theorem Program.Along.and {Q : Concurrent ι L S → Turn ι α β → Prop} (h : prog.Along P c turns)
    (h' : prog.Along Q c turns) : prog.Along (fun c turn => P c turn ∧ Q c turn) c turns := by
  induction turns generalizing c with
  | nil => trivial
  | cons turn turns ih => exact ⟨⟨h.1, h'.1⟩, fun c' hc' => ih (h.2 c' hc') (h'.2 c' hc')⟩

theorem Program.along_of_forall (h : ∀ turn ∈ turns, ∀ c, P c turn) (c : Concurrent ι L S) :
    prog.Along P c turns := by
  induction turns generalizing c with
  | nil => trivial
  | cons turn turns ih =>
    rw [List.forall_mem_cons] at h
    exact ⟨h.1 c, fun c' _ => ih h.2 c'⟩

instance Program.decidableAlong [∀ c turn, Decidable (P c turn)] (c : Concurrent ι L S) :
    (turns : List (Turn ι α β)) → Decidable (prog.Along P c turns)
  | [] => isTrue trivial
  | turn :: turns =>
    match h : prog.step c turn with
    | none => decidable_of_iff (P c turn)
        ⟨fun hP => ⟨hP, fun _ hc' => nomatch h.symm.trans hc'⟩, fun hP => hP.1⟩
    | some c' =>
      have : Decidable (prog.Along P c' turns) := Program.decidableAlong c' turns
      decidable_of_iff (P c turn ∧ prog.Along P c' turns)
        ⟨fun hP => ⟨hP.1, fun _ hc'' => Option.some.inj (h.symm.trans hc'') ▸ hP.2⟩,
          fun hP => ⟨hP.1, hP.2 c' h⟩⟩

theorem Program.run_keeps {I : Concurrent ι L S → Prop}
    (hstep : ∀ c turn c', P c turn → I c → prog.step c turn = some c' → I c')
    (halong : prog.Along P c turns) (hrun : prog.run c turns = some c') (h : I c) : I c' := by
  induction turns generalizing c with
  | nil =>
    cases hrun
    exact h
  | cons turn turns ih =>
    obtain ⟨c₁, hc₁, hrest⟩ := Option.bind_eq_some_iff.mp hrun
    exact ih (halong.2 c₁ hc₁) hrest (hstep c turn c₁ halong.1 h hc₁)

theorem Program.along_of_monotone (f : Concurrent ι L S → ℕ) {N : ℕ}
    (hmono : ∀ c turn c', prog.step c turn = some c' → f c ≤ f c')
    (hrun : prog.run c turns = some c') (hN : f c' < N) :
    prog.Along (fun c _ => f c < N) c turns := by
  suffices h : prog.Along (fun c _ => f c < N) c turns ∧ f c < N from h.1
  induction turns generalizing c with
  | nil =>
    cases hrun
    exact ⟨trivial, hN⟩
  | cons turn turns ih =>
    obtain ⟨c₁, hc₁, hrest⟩ := Option.bind_eq_some_iff.mp hrun
    obtain ⟨halong, hlt⟩ := ih hrest
    have hle := hmono c turn c₁ hc₁
    refine ⟨⟨by omega, ?_⟩, by omega⟩
    intro c₂ hc₂
    cases hc₁.symm.trans hc₂
    exact halong

structure Asserts (I : S → Prop) (A : ι → L → S → Prop) (c : Concurrent ι L S) : Prop where
  shared : I c.shared
  locals : ∀ i, A i (c.locals i) c.shared

theorem Program.run_asserts {I : S → Prop} {A : ι → L → S → Prop}
    (hown : ∀ c i a l g, P c (.process i a) → Asserts I A c →
      prog.process i a (c.locals i) c.shared = some (l, g) → I g ∧ A i l g)
    (hother : ∀ c i a l g, P c (.process i a) → Asserts I A c →
      prog.process i a (c.locals i) c.shared = some (l, g) →
      ∀ j, j ≠ i → A j (c.locals j) g)
    (henv : ∀ c b g, P c (.environment b) → Asserts I A c →
      prog.environment b c.shared = some g → I g ∧ ∀ j, A j (c.locals j) g)
    (halong : prog.Along P c turns) (hrun : prog.run c turns = some c') (h : Asserts I A c) :
    Asserts I A c' := by
  apply Program.run_keeps _ halong hrun h
  intro c turn c' hP h hstep
  cases turn with
  | process i a =>
    obtain ⟨⟨l, g⟩, hact, rfl⟩ := Option.map_eq_some_iff.mp hstep
    obtain ⟨hI, hA⟩ := hown c i a l g hP h hact
    refine ⟨hI, ?_⟩
    intro j
    by_cases hj : j = i
    · subst hj
      simpa using hA
    · simpa [hj] using hother c i a l g hP h hact j hj
  | environment b =>
    obtain ⟨g, hact, rfl⟩ := Option.map_eq_some_iff.mp hstep
    obtain ⟨hI, hA⟩ := henv c b g hP h hact
    exact ⟨hI, hA⟩

end RPerf.Lib
