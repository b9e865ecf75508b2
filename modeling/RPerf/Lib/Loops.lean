import Mathlib.Order.Basic
import Mathlib.Tactic.Common

/-!
# Bounded loops with an explicit body

A `while (1)` loop is a body that either leaves with a result or goes round again with a new
state.
-/

namespace RPerf.Lib

variable {σ ρ : Type*}

/-- One pass through a loop body. -/
inductive Pass (σ ρ : Type*)
  | leave (r : ρ)
  | again (s : σ)

def Pass.Satisfies (I : σ → Prop) (Q : ρ → Prop) : Pass σ ρ → Prop
  | .leave r => Q r
  | .again s => I s

@[simp] theorem Pass.satisfies_leave (I : σ → Prop) (Q : ρ → Prop) (r : ρ) :
    (Pass.leave r).Satisfies I Q ↔ Q r := Iff.rfl

@[simp] theorem Pass.satisfies_again (I : σ → Prop) (Q : ρ → Prop) (s : σ) :
    (Pass.again s).Satisfies I Q ↔ I s := Iff.rfl

variable {I : σ → Prop}

theorem Pass.Satisfies.mono {I' : σ → Prop} {Q Q' : ρ → Prop} {p : Pass σ ρ} (h : p.Satisfies I Q)
    (hI : ∀ s, I s → I' s) (hQ : ∀ r, Q r → Q' r) : p.Satisfies I' Q' := by
  cases p with
  | leave r => exact hQ r h
  | again s => exact hI s h

def loop (body : σ → Pass σ ρ) (stuck : σ → ρ) : ℕ → σ → ρ
  | 0, s => stuck s
  | n + 1, s =>
    match body s with
    | .leave r => r
    | .again s' => loop body stuck n s'

/-- The loop started in `s` leaves with `r`. -/
inductive Leaves (body : σ → Pass σ ρ) : σ → ρ → Prop
  | leave {s r} : body s = .leave r → Leaves body s r
  | again {s s' r} : body s = .again s' → Leaves body s' r → Leaves body s r

/-- `t` is the state at the head of some pass of the loop started in `s`. -/
inductive Visits (body : σ → Pass σ ρ) : σ → σ → Prop
  | refl {s} : Visits body s s
  | again {s s' t} : body s = .again s' → Visits body s' t → Visits body s t

def Meets (body : σ → Pass σ ρ) (P : σ → Prop) (s : σ) : Prop := ∃ t, Visits body s t ∧ P t

variable {body : σ → Pass σ ρ} {stuck : σ → ρ}

theorem meets_of_leave {P : σ → Prop} {s : σ} {r : ρ} (h : body s = .leave r) :
    Meets body P s ↔ P s := by
  constructor
  · rintro ⟨t, hv, ht⟩
    cases hv with
    | refl => exact ht
    | again hb _ => cases h.symm.trans hb
  · exact fun hs => ⟨s, .refl, hs⟩

theorem meets_of_again {P : σ → Prop} {s s' : σ} (h : body s = .again s') :
    Meets body P s ↔ P s ∨ Meets body P s' := by
  constructor
  · rintro ⟨t, hv, ht⟩
    cases hv with
    | refl => exact .inl ht
    | again hb hv =>
      cases h.symm.trans hb
      exact .inr ⟨t, hv, ht⟩
  · rintro (hs | ⟨t, hv, ht⟩)
    · exact ⟨s, .refl, hs⟩
    · exact ⟨t, .again h hv, ht⟩

theorem loop_of_leave {s : σ} {r : ρ} (n : ℕ) (h : body s = .leave r) :
    loop body stuck (n + 1) s = r := by
  simp [loop, h]

theorem loop_of_again {s s' : σ} (n : ℕ) (h : body s = .again s') :
    loop body stuck (n + 1) s = loop body stuck n s' := by
  simp [loop, h]

theorem loop_invariant {Q : ρ → Prop} (hbody : ∀ s, I s → (body s).Satisfies I Q)
    (hstuck : ∀ s, I s → Q (stuck s)) : ∀ n s, I s → Q (loop body stuck n s) := by
  intro n
  induction n with
  | zero => exact hstuck
  | succ n ih =>
    intro s hs
    have hpass := hbody s hs
    cases hb : body s with
    | leave r =>
      rw [loop_of_leave n hb]
      simpa [hb] using hpass
    | again s' =>
      rw [loop_of_again n hb]
      exact ih s' (by simpa [hb] using hpass)

theorem loop_total {Q : ρ → Prop} (m : σ → ℕ)
    (hbody : ∀ s, I s → (body s).Satisfies (fun s' => I s' ∧ m s' < m s) Q) :
    ∀ n s, m s < n → I s → Q (loop body stuck n s) := by
  intro n
  induction n with
  | zero =>
    intro s hs
    omega
  | succ n ih =>
    intro s hlt hs
    have hpass := hbody s hs
    cases hb : body s with
    | leave r =>
      rw [loop_of_leave n hb]
      simpa [hb] using hpass
    | again s' =>
      rw [loop_of_again n hb]
      simp only [hb, Pass.satisfies_again] at hpass
      exact ih s' (by omega) hpass.1

theorem loop_counted {I : ℕ → σ → Prop} {Q : ρ → Prop} {N : ℕ}
    (hbody : ∀ k s, k < N → I k s → (body s).Satisfies (I (k + 1)) Q)
    (hstuck : ∀ s, I N s → Q (stuck s)) {s : σ} (hs : I 0 s) : Q (loop body stuck N s) := by
  suffices h : ∀ n k s, k + n = N → I k s → Q (loop body stuck n s) from h N 0 s (by omega) hs
  intro n
  induction n with
  | zero =>
    intro k s hk hs
    obtain rfl : k = N := by omega
    exact hstuck s hs
  | succ n ih =>
    intro k s hk hs
    have hpass := hbody k s (by omega) hs
    cases hb : body s with
    | leave r =>
      rw [loop_of_leave n hb]
      simpa [hb] using hpass
    | again s' =>
      rw [loop_of_again n hb]
      exact ih (k + 1) s' (by omega) (by simpa [hb] using hpass)

inductive Pass.Related {τ υ : Type*} (R : σ → τ → Prop) (Q : ρ → υ → Prop) :
    Pass σ ρ → Pass τ υ → Prop
  | leave {r r'} : Q r r' → Related R Q (.leave r) (.leave r')
  | again {s s'} : R s s' → Related R Q (.again s) (.again s')

theorem loop_related {τ υ : Type*} {R : σ → τ → Prop} {Q : ρ → υ → Prop} {body' : τ → Pass τ υ}
    {stuck' : τ → υ} (hbody : ∀ s t, R s t → (body s).Related R Q (body' t))
    (hstuck : ∀ s t, R s t → Q (stuck s) (stuck' t)) :
    ∀ n s t, R s t → Q (loop body stuck n s) (loop body' stuck' n t) := by
  intro n
  induction n with
  | zero => exact hstuck
  | succ n ih =>
    intro s t hst
    have hpass := hbody s t hst
    cases hb : body s <;> cases hb' : body' t <;> rw [hb, hb'] at hpass <;> cases hpass
    case leave.leave.leave hq =>
      rw [loop_of_leave n hb, loop_of_leave n hb']
      exact hq
    case again.again.again hr =>
      rw [loop_of_again n hb, loop_of_again n hb']
      exact ih _ _ hr

theorem loop_related_of_pass {τ υ : Type*} {R : σ → τ → Prop} {Q : ρ → υ → Prop}
    {body' : τ → Pass τ υ} {stuck' : τ → υ} (hbody : ∀ s t, R s t → (body s).Related R Q (body' t))
    (hstuck : ∀ s t, R s t → Q (stuck s) (stuck' t)) {s : σ} {t : τ}
    (h : (body s).Related R Q (body' t)) (n : ℕ) :
    Q (loop body stuck (n + 1) s) (loop body' stuck' (n + 1) t) := by
  cases hb : body s <;> cases hb' : body' t <;> rw [hb, hb'] at h <;> cases h
  case leave.leave.leave hq =>
    rw [loop_of_leave n hb, loop_of_leave n hb']
    exact hq
  case again.again.again hr =>
    rw [loop_of_again n hb, loop_of_again n hb']
    exact loop_related hbody hstuck n _ _ hr

theorem exists_leaves {Q : ρ → Prop} (m : σ → ℕ)
    (hbody : ∀ s, I s → (body s).Satisfies (fun s' => I s' ∧ m s' < m s) Q) (s : σ) (hs : I s) :
    ∃ r, Leaves body s r ∧ Q r := by
  induction hn : m s using Nat.strongRecOn generalizing s with
  | _ n ih =>
    have hpass := hbody s hs
    cases hb : body s with
    | leave r =>
      rw [hb] at hpass
      exact ⟨r, .leave hb, hpass⟩
    | again s' =>
      simp only [hb, Pass.satisfies_again] at hpass
      obtain ⟨r, hr, hq⟩ := ih (m s') (hn ▸ hpass.2) s' hpass.1 rfl
      exact ⟨r, .again hb hr, hq⟩

theorem Leaves.exits (hbody : ∀ s, I s → ∃ s', body s = .again s' ∧ I s') {s : σ} {r : ρ}
    (h : Leaves body s r) : ¬ I s := by
  induction h with
  | leave hb =>
    intro hs
    obtain ⟨s', hb', -⟩ := hbody _ hs
    cases hb.symm.trans hb'
  | again hb _ ih =>
    intro hs
    obtain ⟨s', hb', hs'⟩ := hbody _ hs
    cases hb.symm.trans hb'
    exact ih hs'

theorem leaves_loop (body : σ → Pass σ ρ) (stuck : σ → ρ) (n : ℕ) (s : σ) :
    Leaves body s (loop body stuck n s) ∨ ∃ t, loop body stuck n s = stuck t := by
  induction n generalizing s with
  | zero => exact .inr ⟨s, rfl⟩
  | succ n ih =>
    cases hb : body s with
    | leave r =>
      rw [loop_of_leave n hb]
      exact .inl (.leave hb)
    | again s' =>
      rw [loop_of_again n hb]
      exact (ih s').imp_left fun h => .again hb h

/-- Invariant rule for an unbounded loop. -/
theorem Leaves.invariant {Q : ρ → Prop} (hbody : ∀ s, I s → (body s).Satisfies I Q) {s : σ} {r : ρ}
    (h : Leaves body s r) (hs : I s) : Q r := by
  induction h with
  | leave hb => simpa [hb] using hbody _ hs
  | again hb _ ih => exact ih (by simpa [hb] using hbody _ hs)

theorem Visits.trans {s t u : σ} (h : Visits body s t) (h' : Visits body t u) :
    Visits body s u := by
  induction h with
  | refl => exact h'
  | again hb _ ih => exact .again hb (ih h')

theorem Visits.invariant {Q : ρ → Prop} (hbody : ∀ s, I s → (body s).Satisfies I Q) {s t : σ}
    (h : Visits body s t) (hs : I s) : I t := by
  induction h with
  | refl => exact hs
  | again hb _ ih => exact ih (by simpa [hb] using hbody _ hs)

theorem loop_visited {Q : ρ → Prop} {s : σ}
    (hbody : ∀ t, Visits body s t → I t → (body t).Satisfies I Q) (hstuck : ∀ t, I t → Q (stuck t))
    (n : ℕ) (hs : I s) : Q (loop body stuck n s) := by
  refine loop_invariant (I := fun t => Visits body s t ∧ I t) ?_ (fun t ht => hstuck t ht.2)
    n s ⟨.refl, hs⟩
  rintro t ⟨hv, ht⟩
  have hpass := hbody t hv ht
  cases hb : body t with
  | leave r => simpa [hb] using hpass
  | again t' => exact ⟨hv.trans (.again hb .refl), by simpa [hb] using hpass⟩

theorem loop_congr {body' : σ → Pass σ ρ} :
    ∀ n s, (∀ t, Visits body s t → body' t = body t) →
      loop body' stuck n s = loop body stuck n s := by
  intro n
  induction n with
  | zero =>
    intro s _
    rfl
  | succ n ih =>
    intro s h
    have hs := h s .refl
    cases hb : body s with
    | leave r => rw [loop_of_leave n hb, loop_of_leave n (hs.trans hb)]
    | again s' =>
      rw [loop_of_again n hb, loop_of_again n (hs.trans hb)]
      exact ih s' fun t ht => h t (.again hb ht)

theorem loop_of_visits {m : σ → ℕ} (hm : ∀ s s', body s = .again s' → m s' < m s) {s t : σ}
    {r : ρ} (hv : Visits body s t) (ht : body t = .leave r) :
    ∀ n, m s < n → loop body stuck n s = r := by
  induction hv with
  | refl =>
    intro n hn
    obtain ⟨n, rfl⟩ : ∃ k, n = k + 1 := ⟨n - 1, by omega⟩
    exact loop_of_leave n ht
  | again hb _ ih =>
    intro n hn
    have hlt := hm _ _ hb
    obtain ⟨n, rfl⟩ : ∃ k, n = k + 1 := ⟨n - 1, by omega⟩
    rw [loop_of_again n hb, ih ht n (by omega)]

theorem loop_eq_of_lt {m : σ → ℕ} (hm : ∀ s s', body s = .again s' → m s' < m s) :
    ∀ n n' s, m s < n → m s < n' → loop body stuck n s = loop body stuck n' s := by
  intro n
  induction n with
  | zero =>
    intro n' s hn
    omega
  | succ n ih =>
    intro n' s hn hn'
    obtain ⟨n', rfl⟩ : ∃ k, n' = k + 1 := ⟨n' - 1, by omega⟩
    cases hb : body s with
    | leave r => rw [loop_of_leave n hb, loop_of_leave n' hb]
    | again s' =>
      have hlt := hm s s' hb
      rw [loop_of_again n hb, loop_of_again n' hb]
      exact ih n' s' (by omega) (by omega)

theorem Visits.leaves {s t : σ} {r : ρ} (hv : Visits body s t) (h : Leaves body t r) :
    Leaves body s r := by
  induction hv with
  | refl => exact h
  | again hb _ ih => exact .again hb (ih h)

theorem leaves_of_total {Q : ρ → Prop} (m : σ → ℕ)
    (hbody : ∀ s, I s → (body s).Satisfies (fun s' => I s' ∧ m s' < m s) Q) (n : ℕ) (s : σ)
    (hlt : m s < n) (hs : I s) : Leaves body s (loop body stuck n s) := by
  refine loop_total (I := fun t => Visits body s t ∧ I t) m ?_ n s hlt ⟨.refl, hs⟩
  rintro t ⟨hv, ht⟩
  have hpass := hbody t ht
  cases hb : body t with
  | leave r => exact hv.leaves (.leave hb)
  | again t' =>
    rw [hb] at hpass
    exact ⟨⟨hv.trans (.again hb .refl), hpass.1⟩, hpass.2⟩

theorem Leaves.of_visits {s t : σ} {r : ρ} (hv : Visits body s t) (h : Leaves body s r) :
    Leaves body t r := by
  induction hv with
  | refl => exact h
  | again hb _ ih =>
    cases h with
    | leave hb' => cases hb.symm.trans hb'
    | again hb' h =>
      cases hb.symm.trans hb'
      exact ih h

end RPerf.Lib
