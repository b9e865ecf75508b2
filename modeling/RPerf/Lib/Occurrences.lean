import Mathlib.Data.List.Infix
import Mathlib.Tactic

/-!
# Occurrences of a pattern

Where a list occurs in another, and the search for the first place. A stream that is cut in
two has occurrences in front of the cut, behind it, and across it.
-/

namespace RPerf.Lib

variable {α : Type*} {pat l a b : List α} {i j k : ℕ}

/-- The pattern occurs in the list at this place. -/
def OccursAt (pat l : List α) (i : ℕ) : Prop := pat <+: l.drop i

instance [DecidableEq α] : Decidable (OccursAt pat l i) :=
  inferInstanceAs (Decidable (pat <+: l.drop i))

/-- The first place at which the pattern occurs. -/
def FirstAt (pat l : List α) (k : ℕ) : Prop := OccursAt pat l k ∧ ∀ i < k, ¬ OccursAt pat l i

theorem OccursAt.le_length (h : OccursAt pat l i) : pat.length ≤ l.length - i := by
  simpa using h.length_le

theorem occursAt_drop : OccursAt pat (l.drop k) i ↔ OccursAt pat l (k + i) := by
  rw [OccursAt, OccursAt, List.drop_drop]

theorem FirstAt.unique (hi : FirstAt pat l i) (hj : FirstAt pat l j) : i = j := by
  rcases lt_trichotomy i j with hlt | heq | hlt
  · exact absurd hi.1 (hj.2 i hlt)
  · exact heq
  · exact absurd hj.1 (hi.2 j hlt)

theorem OccursAt.cons {x : α} (h : OccursAt (x :: pat) l i) :
    l[i]? = some x ∧ OccursAt pat l (i + 1) := by
  obtain ⟨t, ht⟩ := h
  constructor
  · simpa [List.head?_drop] using (congrArg List.head? ht).symm
  · exact ⟨t, by rw [← List.drop_drop, ← ht]; rfl⟩

theorem occursAt_of_cons {x : α} (hx : l[i]? = some x) (h : OccursAt pat l (i + 1)) :
    OccursAt (x :: pat) l i := by
  obtain ⟨hi, rfl⟩ := List.getElem?_eq_some_iff.mp hx
  rw [OccursAt, List.drop_eq_getElem_cons hi, List.cons_prefix_cons]
  exact ⟨rfl, h⟩

theorem OccursAt.append (h : OccursAt (a ++ b) l i) :
    OccursAt a l i ∧ OccursAt b l (i + a.length) := by
  obtain ⟨t, ht⟩ := h
  constructor
  · exact ⟨b ++ t, by rw [← ht, List.append_assoc]⟩
  · exact ⟨t, by rw [← List.drop_drop, ← ht, List.append_assoc, List.drop_left]⟩

theorem prefix_append_iff (h : a.length ≤ pat.length) :
    pat <+: a ++ b ↔ a = pat.take a.length ∧ pat.drop a.length <+: b := by
  constructor
  · rintro ⟨t, ht⟩
    have ha : a = pat.take a.length := by
      have htake := congrArg (List.take a.length) ht
      rw [List.take_left, List.take_append_of_le_length h] at htake
      exact htake.symm
    refine ⟨ha, t, ?_⟩
    have hdrop := congrArg (List.drop a.length) ht
    rwa [List.drop_left, List.drop_append_of_le_length h] at hdrop
  · rintro ⟨ha, t, rfl⟩
    refine ⟨t, ?_⟩
    rw [← List.append_assoc]
    congr 1
    calc pat = pat.take a.length ++ pat.drop a.length := (List.take_append_drop _ _).symm
      _ = a ++ pat.drop a.length := by rw [← ha]

theorem prefix_append_of_le (h : pat.length ≤ a.length) : pat <+: a ++ b ↔ pat <+: a := by
  rw [List.prefix_iff_eq_take, List.prefix_iff_eq_take, List.take_append_of_le_length h]

theorem occursAt_front (h : i + pat.length ≤ a.length) :
    OccursAt pat (a ++ b) i ↔ OccursAt pat a i := by
  rw [OccursAt, OccursAt, List.drop_append_of_le_length (by omega), prefix_append_of_le]
  rw [List.length_drop]
  omega

theorem occursAt_across (hi : i ≤ a.length) (h : a.length ≤ i + pat.length) :
    OccursAt pat (a ++ b) i ↔
      a.drop i = pat.take (a.length - i) ∧ pat.drop (a.length - i) <+: b := by
  rw [OccursAt, List.drop_append_of_le_length hi, prefix_append_iff, List.length_drop]
  rw [List.length_drop]
  omega

def memmem [DecidableEq α] (pat : List α) : List α → Option ℕ
  | [] => if pat = [] then some 0 else none
  | x :: l => if pat <+: x :: l then some 0 else (memmem pat l).map (· + 1)

variable [DecidableEq α]

theorem memmem_some (h : memmem pat l = some k) : FirstAt pat l k ∧ k ≤ l.length := by
  induction l generalizing k with
  | nil =>
    rw [memmem] at h
    split_ifs at h with hpat
    cases h
    exact ⟨⟨by simp [OccursAt, hpat], fun i hi => absurd hi (Nat.not_lt_zero i)⟩, le_rfl⟩
  | cons x l ih =>
    rw [memmem] at h
    split_ifs at h with hp
    · cases h
      exact ⟨⟨hp, fun i hi => absurd hi (Nat.not_lt_zero i)⟩, Nat.zero_le _⟩
    · obtain ⟨j, hj, rfl⟩ := Option.map_eq_some_iff.mp h
      obtain ⟨⟨hocc, hfirst⟩, hle⟩ := ih hj
      refine ⟨⟨hocc, ?_⟩, Nat.succ_le_succ hle⟩
      intro i hi
      cases i with
      | zero => exact hp
      | succ i => exact hfirst i (Nat.lt_of_succ_lt_succ hi)

theorem memmem_none (h : memmem pat l = none) (i : ℕ) : ¬ OccursAt pat l i := by
  induction l generalizing i with
  | nil =>
    rw [memmem] at h
    split_ifs at h with hpat
    rw [OccursAt, List.drop_nil, List.prefix_nil]
    exact hpat
  | cons x l ih =>
    rw [memmem] at h
    split_ifs at h with hp
    cases i with
    | zero => exact hp
    | succ i => exact ih (Option.map_eq_none_iff.mp h) i

theorem memmem_isSome_of_length_eq (h : pat.length = l.length) :
    (memmem pat l).isSome = true ↔ pat = l := by
  cases hm : memmem pat l with
  | none =>
    simp only [Option.isSome_none, Bool.false_eq_true, false_iff]
    rintro rfl
    exact memmem_none hm 0 (List.prefix_refl _)
  | some k =>
    simp only [Option.isSome_some, true_iff]
    obtain ⟨⟨hocc, -⟩, hle⟩ := memmem_some hm
    have hlen := hocc.le_length
    obtain rfl | hk : k = 0 ∨ l.length = 0 := by omega
    · exact List.IsPrefix.eq_of_length hocc h
    · rw [List.eq_nil_of_length_eq_zero hk, List.eq_nil_of_length_eq_zero (h.trans hk)]

end RPerf.Lib
