import Mathlib.Tactic

/-!
# Stages

A stage of a decoder works on a state and may stop anywhere, with the state as it is then.
-/

namespace RPerf.Lib

abbrev Stage (σ α : Type) := OptionT (StateM σ) α

namespace Stage

variable {σ τ α β : Type}

def eval (p : Stage σ α) (s : σ) : Option α × σ := StateT.run (OptionT.run p) s

/-- The state behind the stage. -/
def exec (p : Stage σ α) (s : σ) : σ := (p.eval s).2

variable {p : Stage σ α} {s s' : σ}

theorem exec_of_eval {a : Option α} (h : p.eval s = (a, s')) : p.exec s = s' := by
  rw [exec, h]

@[simp] theorem eval_pure (a : α) (s : σ) : (pure a : Stage σ α).eval s = (some a, s) := rfl

@[simp] theorem eval_failure (s : σ) : (failure : Stage σ α).eval s = (none, s) := rfl

@[simp] theorem eval_modify (f : σ → σ) (s : σ) :
    (modify f : Stage σ PUnit).eval s = (some ⟨⟩, f s) := rfl

theorem eval_bind_some {f : α → Stage σ β} {a : α} (h : p.eval s = (some a, s')) :
    (p >>= f).eval s = (f a).eval s' := by
  rw [eval] at h
  rw [eval, OptionT.run_bind, Option.elimM, StateT.run_bind, h]
  rfl

theorem eval_bind_none {f : α → Stage σ β} (h : p.eval s = (none, s')) :
    (p >>= f).eval s = (none, s') := by
  rw [eval] at h
  rw [eval, OptionT.run_bind, Option.elimM, StateT.run_bind, h]
  rfl

@[simp] theorem eval_get_bind (f : σ → Stage σ β) (s : σ) :
    ((get : Stage σ σ) >>= f).eval s = (f s).eval s := rfl

@[simp] theorem eval_modify_bind (g : σ → σ) (f : PUnit → Stage σ β) (s : σ) :
    ((modify g : Stage σ PUnit) >>= f).eval s = (f ⟨⟩).eval (g s) := rfl

def Keeps (f : σ → τ) (p : Stage σ α) : Prop := ∀ s, f (p.exec s) = f s

namespace Keeps

variable {f : σ → τ}

theorem bind {p : Stage σ α} {q : α → Stage σ β} (hp : Keeps f p) (hq : ∀ a, Keeps f (q a)) :
    Keeps f (p >>= q) := by
  intro s
  have hp := hp s
  rw [exec] at hp
  rcases h : p.eval s with ⟨_ | a, s'⟩ <;> rw [h] at hp
  · rw [exec, eval_bind_none h]
    exact hp
  · rw [exec, eval_bind_some h]
    exact (hq a s').trans hp

theorem get_bind {q : σ → Stage σ β} (hq : ∀ s, Keeps f (q s)) : Keeps f (get >>= q) :=
  fun s => hq s s

theorem modify_bind {g : σ → σ} {q : PUnit → Stage σ β} (h : ∀ s, f (g s) = f s)
    (hq : Keeps f (q ⟨⟩)) : Keeps f (modify g >>= q) :=
  fun s => (hq (g s)).trans (h s)

theorem pure (a : α) : Keeps f (Pure.pure a : Stage σ α) := fun _ => rfl

theorem failure : Keeps f (failure : Stage σ α) := fun _ => rfl

theorem modify {g : σ → σ} (h : ∀ s, f (g s) = f s) : Keeps f (modify g : Stage σ PUnit) := h

theorem map {g : α → β} {p : Stage σ α} (hp : Keeps f p) : Keeps f (g <$> p) := by
  rw [map_eq_pure_bind]
  exact bind hp fun _ => pure _

theorem ite {c : Prop} [Decidable c] {p q : Stage σ α} (hp : Keeps f p) (hq : Keeps f q) :
    Keeps f (if c then p else q) := by
  split
  · exact hp
  · exact hq

end Keeps

def Extends (I : σ → Prop) (p q : Stage σ α) (J : α → σ → Prop) (E : σ → Prop) : Prop :=
  ∀ s, I s →
    (∃ a s', p.eval s = (some a, s') ∧ q.eval s = (some a, s') ∧ J a s') ∨
      ∃ s', p.eval s = (none, s') ∧ E s'

namespace Extends

variable {I : σ → Prop} {J : α → σ → Prop} {E : σ → Prop}

theorem pure {a : α} (h : ∀ s, I s → J a s) : Extends I (Pure.pure a) (Pure.pure a) J E :=
  fun s hs => .inl ⟨a, s, rfl, rfl, h s hs⟩

variable {q p : Stage σ α}

theorem failure (h : ∀ s, I s → E s) : Extends I failure q J E :=
  fun s hs => .inr ⟨s, rfl, h s hs⟩

theorem modify_bind {m : σ → σ} {J : β → σ → Prop} {f g : PUnit → Stage σ β}
    (h : Extends I (f ⟨⟩) (g ⟨⟩) J E) :
    Extends (fun s => I (m s)) (modify m >>= f) (modify m >>= g) J E :=
  fun s hs => h (m s) hs

theorem modify {g : σ → σ} {J : PUnit → σ → Prop} (h : ∀ s, I s → J ⟨⟩ (g s)) :
    Extends I (modify g) (modify g) J E :=
  fun s hs => .inl ⟨⟨⟩, g s, rfl, rfl, h s hs⟩

theorem bind {J : β → σ → Prop} {K : α → σ → Prop} {f g : α → Stage σ β} (hp : Extends I p q K E)
    (hf : ∀ a, Extends (K a) (f a) (g a) J E) : Extends I (p >>= f) (q >>= g) J E := by
  intro s hs
  rcases hp s hs with ⟨a, s', hp, hq, hK⟩ | ⟨s', hp, hE⟩
  · rw [eval_bind_some hp, eval_bind_some hq]
    exact hf a s' hK
  · exact .inr ⟨s', eval_bind_none hp, hE⟩

theorem pre {K : σ → Prop} (h : Extends K p q J E) (hI : ∀ s, I s → K s) : Extends I p q J E :=
  fun s hs => h s (hI s hs)

theorem get_bind {J : β → σ → Prop} {f g : σ → Stage σ β}
    (h : ∀ s, I s → Extends (· = s) (f s) (g s) J E) : Extends I (get >>= f) (get >>= g) J E :=
  fun s hs => h s hs s rfl

theorem read {J : β → σ → Prop} {f g : σ → Stage σ β}
    (h : ∀ a, I a → Extends I (f a) (g a) J E) : Extends I (get >>= f) (get >>= g) J E :=
  fun s hs => h s hs s hs

theorem map {g : α → β} {J : σ → Prop} (h : Extends I p q (fun _ => J) E) :
    Extends I (g <$> p) (g <$> q) (fun _ => J) E := by
  rw [map_eq_pure_bind, map_eq_pure_bind]
  exact bind h fun _ => pure fun _ ha => ha

theorem ite {c : Prop} [Decidable c] {p' q' : Stage σ α} (ht : c → Extends I p p' J E)
    (hf : ¬ c → Extends I q q' J E) :
    Extends I (if c then p else q) (if c then p' else q') J E := by
  split
  case isTrue hc => exact ht hc
  case isFalse hc => exact hf hc

theorem mono {I' : σ → Prop} {J' : α → σ → Prop} {E' : σ → Prop} (h : Extends I p q J E)
    (hI : ∀ s, I' s → I s) (hJ : ∀ a s, J a s → J' a s) (hE : ∀ s, E s → E' s) :
    Extends I' p q J' E' := by
  intro s hs
  rcases h s (hI s hs) with ⟨a, s', hp, hq, ha⟩ | ⟨s', hp, hs'⟩
  · exact .inl ⟨a, s', hp, hq, hJ a s' ha⟩
  · exact .inr ⟨s', hp, hE s' hs'⟩

theorem keeping {f : σ → τ} (h : Extends I p q J E) (hp : Keeps f p) (v : τ) :
    Extends (fun s => I s ∧ f s = v) p q (fun a s => J a s ∧ f s = v) (fun s => E s ∧ f s = v) := by
  rintro s ⟨hs, hv⟩
  have hkeep := hp s
  rw [exec] at hkeep
  rcases h s hs with ⟨a, s', hp, hq, ha⟩ | ⟨s', hp, hs'⟩ <;> rw [hp] at hkeep
  · exact .inl ⟨a, s', hp, hq, ha, hkeep.trans hv⟩
  · exact .inr ⟨s', hp, hs', hkeep.trans hv⟩

theorem exec_eq (h : Extends I p q J E) {s : σ} (hs : I s) :
    (p.exec s = q.exec s ∧ ∃ a, J a (p.exec s)) ∨ E (p.exec s) := by
  rcases h s hs with ⟨a, s', hp, hq, ha⟩ | ⟨s', hp, hs'⟩
  · rw [exec_of_eval hp, exec_of_eval hq]
    exact .inl ⟨rfl, a, ha⟩
  · rw [exec_of_eval hp]
    exact .inr hs'

end Extends

end Stage

end RPerf.Lib
