import Mathlib.Data.Finset.Range
import Mathlib.Data.Multiset.MapFold
import Mathlib.Logic.Function.Basic
import Mathlib.Tactic

/-!
# Binary heaps with a hole

A heap in the first `n` cells of an array, least key at the root.
-/

namespace RPerf.Lib

open Function

variable {α κ : Type*} [LinearOrder κ] (key : α → κ)

def parent (i : ℕ) : ℕ := (i - 1) / 2

variable {s : Finset ℕ} {i : ℕ}

theorem parent_lt (h : i ≠ 0) : parent i < i := by
  unfold parent
  omega

theorem parent_eq {p : ℕ} (h : i ≠ 0) : parent i = p ↔ i = 2 * p + 1 ∨ i = 2 * p + 2 := by
  unfold parent
  omega

def siftUp (arr : ℕ → α) (pos : ℕ) (x : α) : ℕ → α :=
  if _h : pos = 0 then update arr pos x
  else if key (arr (parent pos)) ≤ key x then update arr pos x
  else siftUp (update arr pos (arr (parent pos))) (parent pos) x
termination_by pos
decreasing_by exact parent_lt _h

def sinkHole (cnt : ℕ) (arr : ℕ → α) (pos : ℕ) : ℕ → α :=
  let left := 2 * pos + 1
  let right := left + 1
  if cnt ≤ left then siftUp key arr pos (arr (cnt - 1))
  else if cnt ≤ right then update arr pos (arr left)
  else if key (arr left) < key (arr right) then sinkHole cnt (update arr pos (arr left)) left
  else sinkHole cnt (update arr pos (arr right)) right
termination_by cnt - pos

def Heap (arr : ℕ → α) (n : ℕ) : Prop :=
  ∀ i < n, i ≠ 0 → key (arr (parent i)) ≤ key (arr i)

structure Hole (arr : ℕ → α) (n hole : ℕ) : Prop where
  off : ∀ i < n, i ≠ 0 → i ≠ hole → parent i ≠ hole → key (arr (parent i)) ≤ key (arr i)
  across : ∀ i < n, i ≠ 0 → parent i = hole → hole ≠ 0 → key (arr (parent hole)) ≤ key (arr i)

/-- The entries of a set of cells. -/
def items (arr : ℕ → α) (s : Finset ℕ) : Multiset α := s.val.map arr

variable {key} {arr : ℕ → α} {n pos : ℕ} {x : α}

theorem items_update_of_notMem (h : pos ∉ s) : items (update arr pos x) s = items arr s := by
  apply Multiset.map_congr rfl
  intro i hi
  exact update_of_ne (ne_of_mem_of_not_mem hi h) x arr

theorem items_insert (h : pos ∉ s) : items arr (insert pos s) = arr pos ::ₘ items arr s := by
  rw [items, Finset.insert_val_of_notMem h, Multiset.map_cons]
  rfl

theorem items_erase (h : pos ∈ s) : items arr s = arr pos ::ₘ items arr (s.erase pos) := by
  rw [← items_insert (s.notMem_erase pos), Finset.insert_erase h]

theorem items_update (h : pos ∈ s) :
    items (update arr pos x) s = x ::ₘ items arr (s.erase pos) := by
  rw [items_erase h, update_self, items_update_of_notMem (s.notMem_erase pos)]

theorem items_move {c : ℕ} (hp : pos ∈ s) (hc : c ∈ s) (hne : c ≠ pos) :
    items (update arr pos (arr c)) (s.erase c) = items arr (s.erase pos) := by
  rw [items_update (Finset.mem_erase.mpr ⟨hne.symm, hp⟩), Finset.erase_right_comm,
    ← items_erase (Finset.mem_erase.mpr ⟨hne, hc⟩)]

theorem range_erase_last (n : ℕ) : (Finset.range (n + 1)).erase n = Finset.range n := by
  rw [Finset.range_add_one, Finset.erase_insert Finset.notMem_range_self]

theorem Heap.hole (h : Heap key arr n) : Hole key arr (n + 1) n := by
  constructor
  · intro i hi h0 hne _
    exact h i (by omega) h0
  · intro i hi h0 hp
    have := parent_lt h0
    omega

theorem Hole.moveUp (h : Hole key arr n pos) (hpos : pos < n) (h0 : pos ≠ 0) :
    Hole key (update arr pos (arr (parent pos))) n (parent pos) := by
  have hlt := parent_lt h0
  constructor
  · intro i hi hi0 hne hpne
    have hip : i ≠ pos := by
      rintro rfl
      exact hpne rfl
    rw [update_of_ne hip]
    by_cases hpi : parent i = pos
    · rw [hpi, update_self]
      exact h.across i hi hi0 hpi h0
    · rw [update_of_ne hpi]
      exact h.off i hi hi0 hip hpi
  · intro i hi hi0 hpi hp0
    have hlt' := parent_lt hp0
    have hup : key (arr (parent (parent pos))) ≤ key (arr (parent pos)) :=
      h.off _ (by omega) hp0 (by omega) (by omega)
    rw [update_of_ne (by omega)]
    by_cases hip : i = pos
    · rw [hip, update_self]
      exact hup
    · rw [update_of_ne hip]
      apply hup.trans
      rw [← hpi]
      exact h.off i hi hi0 hip (by omega)

theorem Hole.fill (h : Hole key arr n pos) (habove : pos ≠ 0 → key (arr (parent pos)) ≤ key x)
    (hbelow : ∀ i < n, i ≠ 0 → parent i = pos → key x ≤ key (arr i)) :
    Heap key (update arr pos x) n := by
  intro i hi hi0
  have hlt := parent_lt hi0
  by_cases hip : i = pos
  · subst hip
    rw [update_self, update_of_ne (by omega)]
    exact habove hi0
  · rw [update_of_ne hip]
    by_cases hpi : parent i = pos
    · rw [hpi, update_self]
      exact hbelow i hi hi0 hpi
    · rw [update_of_ne hpi]
      exact h.off i hi hi0 hip hpi

theorem siftUp_spec (h : Hole key arr n pos) (hpos : pos < n)
    (hbelow : ∀ i < n, i ≠ 0 → parent i = pos → key x ≤ key (arr i)) :
    Heap key (siftUp key arr pos x) n ∧
      items (siftUp key arr pos x) (Finset.range n) =
        x ::ₘ items arr ((Finset.range n).erase pos) := by
  induction pos using Nat.strongRecOn generalizing arr with
  | _ pos ih =>
    have hmem : pos ∈ Finset.range n := Finset.mem_range.mpr hpos
    rw [siftUp]
    split
    · next h0 => exact ⟨h.fill (fun hne => absurd h0 hne) hbelow, items_update hmem⟩
    · next h0 =>
      have hlt := parent_lt h0
      split
      · next hle => exact ⟨h.fill (fun _ => hle) hbelow, items_update hmem⟩
      · next hgt =>
        have hx : key x ≤ key (arr (parent pos)) := (not_le.mp hgt).le
        have hnext : ∀ i < n, i ≠ 0 → parent i = parent pos →
            key x ≤ key (update arr pos (arr (parent pos)) i) := by
          intro i hi hi0 hpi
          by_cases hip : i = pos
          · rw [hip, update_self]
            exact hx
          · rw [update_of_ne hip]
            apply hx.trans
            rw [← hpi]
            exact h.off i hi hi0 hip (by omega)
        obtain ⟨hheap, hitems⟩ := ih (parent pos) hlt (h.moveUp hpos h0) (by omega) hnext
        refine ⟨hheap, ?_⟩
        rw [hitems, items_move hmem (Finset.mem_range.mpr (by omega)) (by omega)]

theorem Heap.insert (h : Heap key arr n) (x : α) :
    Heap key (siftUp key arr n x) (n + 1) ∧
      items (siftUp key arr n x) (Finset.range (n + 1)) = x ::ₘ items arr (Finset.range n) := by
  have hbelow : ∀ i < n + 1, i ≠ 0 → parent i = n → key x ≤ key (arr i) := by
    intro i hi h0 hp
    have := parent_lt h0
    omega
  have hspec := siftUp_spec h.hole (Nat.lt_succ_self n) hbelow
  rwa [range_erase_last] at hspec

theorem Heap.holeRoot (h : Heap key arr n) : Hole key arr n 0 :=
  ⟨fun i hi h0 _ _ => h i hi h0, fun _ _ _ _ h0 => absurd rfl h0⟩

theorem Hole.moveDown (h : Hole key arr n pos) {c : ℕ} (h0 : c ≠ 0) (hp : parent c = pos)
    (hc : c < n) (hmin : ∀ i < n, i ≠ 0 → parent i = pos → key (arr c) ≤ key (arr i)) :
    Hole key (update arr pos (arr c)) n c := by
  have hlt := parent_lt h0
  constructor
  · intro i hi hi0 hne hpne
    have hlti := parent_lt hi0
    by_cases hip : i = pos
    · subst hip
      rw [update_self, update_of_ne (by omega)]
      exact h.across c hc h0 hp hi0
    · rw [update_of_ne hip]
      by_cases hpi : parent i = pos
      · rw [hpi, update_self]
        exact hmin i hi hi0 hpi
      · rw [update_of_ne hpi]
        exact h.off i hi hi0 hip hpi
  · intro i hi hi0 hpi _
    have hlti := parent_lt hi0
    rw [hp, update_self, update_of_ne (by omega), ← hpi]
    exact h.off i hi hi0 (by omega) (by omega)

theorem Hole.mono {m : ℕ} (h : Hole key arr n pos) (hm : m ≤ n) : Hole key arr m pos :=
  ⟨fun i hi => h.off i (hi.trans_le hm), fun i hi => h.across i (hi.trans_le hm)⟩

theorem Hole.heap (h : Hole key arr (n + 1) n) : Heap key arr n := by
  intro i hi h0
  have := parent_lt h0
  exact h.off i (by omega) h0 (by omega) (by omega)

theorem Hole.fillLeaf (h : Hole key arr (n + 1) pos) (hpos : pos < n)
    (hleaf : n + 1 ≤ 2 * pos + 1) :
    Heap key (siftUp key arr pos (arr n)) n ∧
      items (siftUp key arr pos (arr n)) (Finset.range n) =
        items arr ((Finset.range (n + 1)).erase pos) := by
  have hbelow : ∀ i < n, i ≠ 0 → parent i = pos → key (arr n) ≤ key (arr i) := by
    intro i hi h0 hp
    rw [parent_eq h0] at hp
    omega
  obtain ⟨hheap, hitems⟩ := siftUp_spec (h.mono (Nat.le_succ n)) hpos hbelow
  refine ⟨hheap, ?_⟩
  have hlast : n ∈ (Finset.range (n + 1)).erase pos := by
    rw [Finset.mem_erase, Finset.mem_range]
    omega
  rw [hitems, items_erase hlast, Finset.erase_right_comm, range_erase_last]

theorem sinkHole_spec (h : Hole key arr (n + 1) pos) (hpos : pos ≤ n)
    (hcopy : pos ≠ 0 → arr (parent pos) = arr pos) :
    Heap key (sinkHole key (n + 1) arr pos) n ∧
      items (sinkHole key (n + 1) arr pos) (Finset.range n) =
        items arr ((Finset.range (n + 1)).erase pos) := by
  induction hd : n - pos using Nat.strongRecOn generalizing arr pos with
  | _ d ih =>
    have hmem : pos ∈ Finset.range (n + 1) := Finset.mem_range.mpr (by omega)
    have hstep : ∀ c, c ≠ 0 → parent c = pos → c ≤ n →
        (∀ i < n + 1, i ≠ 0 → parent i = pos → key (arr c) ≤ key (arr i)) →
        Heap key (sinkHole key (n + 1) (update arr pos (arr c)) c) n ∧
          items (sinkHole key (n + 1) (update arr pos (arr c)) c) (Finset.range n) =
            items arr ((Finset.range (n + 1)).erase pos) := by
      intro c h0 hp hc hmin
      have hlt := parent_lt h0
      have hcopy' : update arr pos (arr c) (parent c) = update arr pos (arr c) c := by
        rw [hp, update_self, update_of_ne (by omega)]
      obtain ⟨hheap, hitems⟩ := ih (n - c) (by omega) (h.moveDown h0 hp (by omega) hmin) hc
        (fun _ => hcopy') rfl
      refine ⟨hheap, ?_⟩
      rw [hitems, items_move hmem (Finset.mem_range.mpr (by omega)) (by omega)]
    rw [sinkHole]
    simp only [Nat.add_sub_cancel]
    split
    · next hleaf =>
      rcases hpos.lt_or_eq with hlt | rfl
      · exact h.fillLeaf hlt hleaf
      · -- the last entry is the one that moved up, so it stays behind the end
        have hstay : siftUp key arr pos (arr pos) = arr := by
          rw [siftUp]
          split_ifs with h0 hle
          · exact update_eq_self pos arr
          · exact update_eq_self pos arr
          · rw [hcopy h0] at hle
            exact absurd le_rfl hle
        rw [hstay, range_erase_last]
        exact ⟨h.heap, rfl⟩
    · next hleft =>
      split
      · next hright =>
        obtain rfl : n = 2 * pos + 1 := by omega
        have hchild : parent (2 * pos + 1) = pos := (parent_eq (by omega)).mpr (.inl rfl)
        have honly : ∀ i < 2 * pos + 1 + 1, i ≠ 0 → parent i = pos →
            key (arr (2 * pos + 1)) ≤ key (arr i) := by
          intro i hi h0 hp
          rw [parent_eq h0] at hp
          obtain rfl : i = 2 * pos + 1 := by omega
          exact le_rfl
        refine ⟨(h.moveDown (by omega) hchild (by omega) honly).heap, ?_⟩
        rw [← items_move hmem (Finset.mem_range.mpr (Nat.lt_succ_self _)) (by omega),
          range_erase_last]
      · next hright =>
        have hleft' : parent (2 * pos + 1) = pos := (parent_eq (by omega)).mpr (.inl rfl)
        have hright' : parent (2 * pos + 1 + 1) = pos := (parent_eq (by omega)).mpr (.inr rfl)
        split
        · next hlt =>
          apply hstep _ (by omega) hleft' (by omega)
          intro i hi h0 hp
          rcases (parent_eq h0).mp hp with rfl | rfl
          · exact le_rfl
          · exact hlt.le
        · next hge =>
          apply hstep _ (by omega) hright' (by omega)
          intro i hi h0 hp
          rcases (parent_eq h0).mp hp with rfl | rfl
          · exact not_lt.mp hge
          · exact le_rfl

theorem Heap.pop (h : Heap key arr (n + 1)) :
    Heap key (sinkHole key (n + 1) arr 0) n ∧
      items arr (Finset.range (n + 1)) =
        arr 0 ::ₘ items (sinkHole key (n + 1) arr 0) (Finset.range n) := by
  obtain ⟨hheap, hitems⟩ := sinkHole_spec h.holeRoot (Nat.zero_le n) fun h0 => absurd rfl h0
  refine ⟨hheap, ?_⟩
  rw [hitems]
  exact items_erase (Finset.mem_range.mpr (Nat.succ_pos n))

theorem Heap.root_le_cell (h : Heap key arr n) (hi : i < n) : key (arr 0) ≤ key (arr i) := by
  induction i using Nat.strongRecOn with
  | _ i ih =>
    by_cases h0 : i = 0
    · rw [h0]
    · have hlt := parent_lt h0
      exact (ih (parent i) hlt (by omega)).trans (h i hi h0)

theorem Heap.root_le (h : Heap key arr n) (hx : x ∈ items arr (Finset.range n)) :
    key (arr 0) ≤ key x := by
  obtain ⟨i, hi, rfl⟩ := Multiset.mem_map.mp hx
  exact h.root_le_cell (Finset.mem_range.mp hi)

end RPerf.Lib
