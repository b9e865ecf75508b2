import RPerf.Lib.StableOrder

/-!
# Binary search trees of any shape

Insertion at the leaf a descent comes to, and search by a descent.
-/

namespace RPerf.Lib

variable {α κ : Type*} [LinearOrder κ]

inductive SearchTree (α : Type*)
  | leaf
  | node (left : SearchTree α) (a : α) (right : SearchTree α)

namespace SearchTree

/-- The elements in order. -/
def toList : SearchTree α → List α
  | .leaf => []
  | .node left a right => left.toList ++ a :: right.toList

def insert (key : α → κ) (x : α) : SearchTree α → SearchTree α
  | .leaf => .node .leaf x .leaf
  | .node left a right =>
    if key x < key a then .node (left.insert key x) a right
    else .node left a (right.insert key x)

def search (side : α → Ordering) : SearchTree α → Option α
  | .leaf => none
  | .node left a right =>
    match side a with
    | .lt => left.search side
    | .gt => right.search side
    | .eq => some a

/-- Some tree with these elements. -/
def ofList : List α → SearchTree α
  | [] => .leaf
  | a :: l => .node .leaf a (ofList l)

@[simp] theorem toList_ofList (l : List α) : (ofList l).toList = l := by
  induction l with
  | nil => rfl
  | cons a l ih => simp [ofList, toList, ih]

variable {t : SearchTree α}

theorem toList_insert {key : α → κ} (x : α) (h : Ordered key t.toList) :
    (t.insert key x).toList = place key x t.toList := by
  induction t with
  | leaf => rfl
  | node left a right ihl ihr =>
    rw [toList, ordered_append, ordered_cons] at h
    obtain ⟨hl, ⟨-, hr⟩, hla⟩ := h
    rw [insert]
    by_cases hlt : key x < key a
    · rw [if_pos hlt, toList, toList, ihl hl, place_append_right _ (by simpa using hlt)]
    · have hbefore : ∀ b ∈ left.toList ++ [a], key b ≤ key x := by
        intro b hb
        rcases List.mem_append.mp hb with hb | hb
        · exact (hla b hb a (by simp)).trans (not_lt.mp hlt)
        · rw [List.mem_singleton.mp hb]
          exact not_lt.mp hlt
      rw [if_neg hlt, toList, toList, ihr hr, List.append_cons, ← place_append _ hbefore,
        ← List.append_cons]

def Sided (side : α → Ordering) (l : List α) : Prop :=
  l.Pairwise fun a b => (side a = .lt → side b = .lt) ∧ (side b = .gt → side a = .gt)

theorem search_spec {side : α → Ordering} (h : Sided side t.toList) :
    match t.search side with
    | some a => a ∈ t.toList ∧ side a = .eq
    | none => ∀ a ∈ t.toList, side a ≠ .eq := by
  induction t with
  | leaf => simp [search, toList]
  | node left a right ihl ihr =>
    rw [Sided, toList, List.pairwise_append, List.pairwise_cons] at h
    obtain ⟨hl, ⟨har, hr⟩, hla⟩ := h
    rw [search]
    cases hs : side a with
    | eq => simp [toList, hs]
    | lt =>
      have hright : ∀ b ∈ right.toList, side b ≠ .eq := fun b hb => by simp [(har b hb).1 hs]
      have hleft := ihl hl
      cases hf : left.search side with
      | none =>
        rw [hf] at hleft
        intro b hb
        rcases List.mem_append.mp hb with hb | hb
        · exact hleft b hb
        · rcases List.mem_cons.mp hb with rfl | hb
          · simp [hs]
          · exact hright b hb
      | some c =>
        rw [hf] at hleft
        exact ⟨List.mem_append_left _ hleft.1, hleft.2⟩
    | gt =>
      have hleft : ∀ b ∈ left.toList, side b ≠ .eq := fun b hb => by
        simp [(hla b hb a (by simp)).2 hs]
      have hright := ihr hr
      cases hf : right.search side with
      | none =>
        rw [hf] at hright
        intro b hb
        rcases List.mem_append.mp hb with hb | hb
        · exact hleft b hb
        · rcases List.mem_cons.mp hb with rfl | hb
          · simp [hs]
          · exact hright b hb
      | some c =>
        rw [hf] at hright
        exact ⟨List.mem_append_right _ (List.mem_cons_of_mem a hright.1), hright.2⟩

theorem mem_of_search {side : α → Ordering} {x : α} (h : t.search side = some x) :
    x ∈ t.toList ∧ side x = .eq := by
  induction t with
  | leaf => cases h
  | node left a right ihl ihr =>
    rw [toList, List.mem_append, List.mem_cons]
    rw [search] at h
    cases hs : side a with
    | lt =>
      rw [hs] at h
      exact ⟨.inl (ihl h).1, (ihl h).2⟩
    | gt =>
      rw [hs] at h
      exact ⟨.inr (.inr (ihr h).1), (ihr h).2⟩
    | eq =>
      rw [hs] at h
      cases h
      exact ⟨.inr (.inl rfl), hs⟩

section Intervals

variable {lo hi : α → ℕ}

def Apart (lo hi : α → ℕ) (a b : α) : Prop := lo a ≤ lo b ∧ hi a ≤ lo b

structure Locates (side : α → Ordering) (lo hi : α → ℕ) (k : ℕ) (l : List α) : Prop where
  lt : ∀ a ∈ l, side a = .lt ↔ k < lo a
  gt : ∀ a ∈ l, side a = .gt ↔ lo a ≤ k ∧ hi a ≤ k

variable {k : ℕ} {side : α → Ordering} {l : List α} {a : α}

theorem Locates.eq_iff (h : Locates side lo hi k l) (ha : a ∈ l) :
    side a = .eq ↔ lo a ≤ k ∧ k < hi a := by
  have hlt := h.lt a ha
  have hgt := h.gt a ha
  cases hs : side a <;> simp only [hs, reduceCtorEq, true_iff, false_iff] at hlt hgt ⊢ <;> omega

theorem Locates.sided (h : Locates side lo hi k l) (hl : l.Pairwise (Apart lo hi)) :
    Sided side l := by
  apply hl.imp_of_mem
  intro a b ha hb hab
  rw [Apart] at hab
  rw [h.lt a ha, h.lt b hb, h.gt a ha, h.gt b hb]
  omega

theorem eq_of_pairwise_apart (h : l.Pairwise (Apart lo hi)) {b : α} (ha : a ∈ l) (hb : b ∈ l)
    (hak : lo a ≤ k ∧ k < hi a) (hbk : lo b ≤ k ∧ k < hi b) : a = b := by
  have hnot : ∀ {x y : α}, Apart lo hi x y → k < hi x → lo y ≤ k → False := by
    intro x y hxy hx hy
    exact absurd (hxy.2.trans hy) (Nat.not_le.mpr hx)
  induction h with
  | nil => cases ha
  | cons hm _ ih =>
    rcases List.mem_cons.mp ha with ha' | ha' <;> rcases List.mem_cons.mp hb with hb' | hb'
    · rw [ha', hb']
    · exact (hnot (ha' ▸ hm b hb') hak.2 hbk.1).elim
    · exact (hnot (hb' ▸ hm a ha') hbk.2 hak.1).elim
    · exact ih ha' hb'

theorem search_eq_some_iff {t : SearchTree α} (h : Locates side lo hi k t.toList)
    (hl : t.toList.Pairwise (Apart lo hi)) :
    t.search side = some a ↔ a ∈ t.toList ∧ lo a ≤ k ∧ k < hi a := by
  have hspec := search_spec (h.sided hl)
  constructor
  · intro hf
    rw [hf] at hspec
    exact ⟨hspec.1, (h.eq_iff hspec.1).mp hspec.2⟩
  · rintro ⟨ha, hak⟩
    cases hf : t.search side with
    | none =>
      rw [hf] at hspec
      exact absurd ((h.eq_iff ha).mpr hak) (hspec a ha)
    | some b =>
      rw [hf] at hspec
      rw [eq_of_pairwise_apart hl hspec.1 ha ((h.eq_iff hspec.1).mp hspec.2) hak]

end Intervals

end SearchTree

end RPerf.Lib
