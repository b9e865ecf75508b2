import Mathlib.Data.List.Sort
import Mathlib.Tactic.Common

/-!
# Stable insertion into an ordered list

`place key x l` puts `x` behind every element of `l` whose key is not greater.
-/

namespace RPerf.Lib

variable {α β κ : Type*} [LinearOrder κ] (key : α → κ)

/-- The keys never decrease along the list. -/
def Ordered (l : List α) : Prop := l.Pairwise fun a b => key a ≤ key b

def place (x : α) (l : List α) : List α := l.orderedInsert (fun a b => key a < key b) x

def withKey (k : κ) (l : List α) : List α := l.filter fun a => key a = k

/-- `s` is the stable sort of `l`. -/
structure StableSort (s l : List α) : Prop where
  ordered : Ordered key s
  stable : ∀ k, withKey key k s = withKey key k l

variable {key}

@[simp] theorem ordered_nil : Ordered key ([] : List α) := .nil

variable {l m : List α} {x : α}

@[simp] theorem ordered_cons {a : α} :
    Ordered key (a :: l) ↔ (∀ b ∈ l, key a ≤ key b) ∧ Ordered key l := List.pairwise_cons

theorem ordered_append :
    Ordered key (l ++ m) ↔ Ordered key l ∧ Ordered key m ∧ ∀ a ∈ l, ∀ b ∈ m, key a ≤ key b :=
  List.pairwise_append

theorem ordered_map {f : β → α} {l : List β} : Ordered key (l.map f) ↔ Ordered (key ∘ f) l :=
  List.pairwise_map

@[simp] theorem mem_place {y : α} : y ∈ place key x l ↔ y = x ∨ y ∈ l := by
  simp [place, List.mem_orderedInsert]

theorem place_perm (x : α) (l : List α) : (place key x l).Perm (x :: l) :=
  List.perm_orderedInsert _ x l

@[simp] theorem length_place (x : α) (l : List α) : (place key x l).length = l.length + 1 :=
  (place_perm x l).length_eq

theorem place_append (m : List α) (h : ∀ a ∈ l, key a ≤ key x) :
    place key x (l ++ m) = l ++ place key x m := by
  induction l with
  | nil => rfl
  | cons a l ih =>
    rw [List.forall_mem_cons] at h
    have hax : ¬ key x < key a := not_lt.mpr h.1
    simp only [place, List.cons_append, List.orderedInsert_cons, if_neg hax] at ih ⊢
    rw [ih h.2]

theorem place_append_right (l : List α) (h : ∀ a ∈ m.head?, key x < key a) :
    place key x (l ++ m) = place key x l ++ m := by
  induction l with
  | nil =>
    cases m with
    | nil => rfl
    | cons a m => simp [place, h a (by simp)]
  | cons b l ih =>
    by_cases hxb : key x < key b
    · simp [place, hxb]
    · simpa [place, hxb] using ih

theorem place_of_lt (h : ∀ a ∈ l.head?, key x < key a) :
    place key x l = x :: l := place_append_right [] h

theorem place_between (hl : ∀ a ∈ l, key a ≤ key x) (hm : ∀ a ∈ m.head?, key x < key a) :
    place key x (l ++ m) = l ++ x :: m := by
  rw [place_append m hl, place_of_lt hm]

theorem Ordered.place (h : Ordered key l) : Ordered key (place key x l) := by
  induction l with
  | nil => simp [Lib.place]
  | cons a l ih =>
    rw [ordered_cons] at h
    by_cases hxa : key x < key a
    · have hx : ∀ b ∈ a :: l, key x ≤ key b := by
        intro b hb
        rcases List.mem_cons.mp hb with rfl | hb
        · exact hxa.le
        · exact hxa.le.trans (h.1 b hb)
      simpa [Lib.place, hxa] using ⟨List.forall_mem_cons.mp hx, h⟩
    · rw [← List.singleton_append, place_append l (by simpa using hxa), List.singleton_append,
        ordered_cons]
      constructor
      · intro b hb
        rcases mem_place.mp hb with rfl | hb
        · exact not_lt.mp hxa
        · exact h.1 b hb
      · exact ih h.2

theorem pairwise_place {R : α → α → Prop} (hord : Ordered key l) (h : l.Pairwise R)
    (hbefore : ∀ a ∈ l, key a ≤ key x → R a x) (hafter : ∀ a ∈ l, key x < key a → R x a) :
    (Lib.place key x l).Pairwise R := by
  induction l with
  | nil => simp [Lib.place]
  | cons a l ih =>
    rw [ordered_cons] at hord
    rw [List.pairwise_cons] at h
    rw [List.forall_mem_cons] at hbefore hafter
    by_cases hxa : key x < key a
    · rw [place_of_lt (by simpa using hxa), List.pairwise_cons, List.forall_mem_cons,
        List.pairwise_cons]
      exact ⟨⟨hafter.1 hxa, fun b hb => hafter.2 b hb (hxa.trans_le (hord.1 b hb))⟩, h⟩
    · rw [← List.singleton_append, place_append l (by simpa using hxa), List.singleton_append,
        List.pairwise_cons]
      refine ⟨?_, ih hord.2 h.2 hbefore.2 hafter.2⟩
      intro b hb
      rcases mem_place.mp hb with rfl | hb
      · exact hbefore.1 (not_lt.mp hxa)
      · exact h.1 b hb

theorem withKey_append (k : κ) (l m : List α) :
    withKey key k (l ++ m) = withKey key k l ++ withKey key k m := List.filter_append ..

theorem rel_of_pairwise_place {R : α → α → Prop} (hR : ∀ a b, R a b → key a ≤ key b) {y : α}
    (h : (Lib.place key x l).Pairwise R) (hy : y ∈ l) (hle : key y ≤ key x) : R y x := by
  induction l with
  | nil => cases hy
  | cons a l ih =>
    by_cases hlt : key x < key a
    · rw [place_of_lt (by simpa using hlt), List.pairwise_cons, List.pairwise_cons] at h
      rcases List.mem_cons.mp hy with rfl | hmem
      · exact absurd hle (not_le.mpr hlt)
      · exact absurd ((hR a y (h.2.1 y hmem)).trans hle) (not_le.mpr hlt)
    · have hstep : Lib.place key x (a :: l) = a :: Lib.place key x l :=
        place_append (l := [a]) l (by simpa using hlt)
      rw [hstep, List.pairwise_cons] at h
      rcases List.mem_cons.mp hy with rfl | hmem
      · exact h.1 x (mem_place.mpr (.inl rfl))
      · exact ih h.2 hmem

theorem withKey_place (k : κ) (h : Ordered key l) :
    withKey key k (place key x l) = withKey key k (l ++ [x]) := by
  induction l with
  | nil => rfl
  | cons a l ih =>
    rw [ordered_cons] at h
    by_cases hxa : key x < key a
    · have habove : key x = k → withKey key k (a :: l) = [] := by
        intro hk
        apply List.filter_eq_nil_iff.mpr
        intro b hb hbk
        have hab : key a ≤ key b := by
          rcases List.mem_cons.mp hb with rfl | hb
          · exact le_rfl
          · exact h.1 b hb
        rw [of_decide_eq_true hbk, ← hk] at hab
        exact hab.not_gt hxa
      rw [place_of_lt (by simpa using hxa), ← List.singleton_append, withKey_append, withKey_append]
      by_cases hk : key x = k
      · rw [habove hk, List.append_nil, List.nil_append]
      · simp [withKey, hk]
    · rw [← List.singleton_append, place_append l (by simpa using hxa), List.append_assoc,
        withKey_append, withKey_append, ih h.2]

theorem StableSort.place {s : List α} (h : StableSort key s l) (x : α) :
    StableSort key (place key x s) (l ++ [x]) where
  ordered := h.ordered.place
  stable k := by
    rw [withKey_place k h.ordered, withKey_append, withKey_append, h.stable]

theorem StableSort.nil : StableSort key ([] : List α) [] := ⟨ordered_nil, fun _ => rfl⟩

end RPerf.Lib
