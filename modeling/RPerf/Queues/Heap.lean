import RPerf.Lib.BinaryHeap
import RPerf.Lib.Loops

/-!
# The heap of queues

`struct auxtrace_heap` of `auxtrace.c`, ordered by the time each queue has got to.
-/

namespace RPerf.Queues

open Function Lib

/-- `struct auxtrace_heap_item`. -/
structure HeapItem where
  queueNr : ℕ := 0
  ordinal : UInt64 := 0
  deriving DecidableEq, Repr

def HeapItem.rank (item : HeapItem) : ℕ := item.ordinal.toNat

structure AuxtraceHeap where
  heapArray : ℕ → HeapItem := fun _ => {}
  heapCnt : ℕ := 0
  heapSz : ℕ := 0

def auxtraceHeapify (heapArray : ℕ → HeapItem) (pos queueNr : ℕ) (ordinal : UInt64) :
    ℕ → HeapItem :=
  siftUp HeapItem.rank heapArray pos ⟨queueNr, ordinal⟩

/-- A pass of the loop of `auxtrace_heap__add`. -/
def doublePass (queueNr heapSz : UInt32) : Pass UInt32 UInt32 :=
  if heapSz ≤ queueNr then .again (heapSz <<< 1) else .leave heapSz

def doubled (queueNr heapSz : ℕ) : ℕ :=
  if heapSz ≤ queueNr ∧ heapSz ≠ 0 then doubled queueNr (2 * heapSz) else heapSz
termination_by queueNr + 1 - heapSz

namespace AuxtraceHeap

/-- The heap with an item more, in an array of this size. -/
def push (heap : AuxtraceHeap) (heapSz queueNr : ℕ) (ordinal : UInt64) : AuxtraceHeap where
  heapArray := auxtraceHeapify heap.heapArray heap.heapCnt queueNr ordinal
  heapCnt := heap.heapCnt + 1
  heapSz := heapSz

/-- `auxtrace_heap__add` returns `r`; `realloc` says whether a size can be had. -/
def Adds (realloc : ℕ → Bool) (heap : AuxtraceHeap) (queueNr : UInt32) (ordinal : UInt64)
    (r : Int × AuxtraceHeap) : Prop :=
  if heap.heapSz ≤ queueNr.toNat then
    ∃ heapSz, Leaves (doublePass queueNr) 32 heapSz ∧
      r = if realloc heapSz.toNat then (0, heap.push heapSz.toNat queueNr.toNat ordinal)
        else (-12, heap)
  else r = (0, heap.push heap.heapSz queueNr.toNat ordinal)

/-- What `auxtrace_heap__add` returns for a queue number below `2 ^ 31`. -/
def add (realloc : ℕ → Bool) (heap : AuxtraceHeap) (queueNr : ℕ) (ordinal : UInt64) :
    Int × AuxtraceHeap :=
  let heapSz := if heap.heapSz ≤ queueNr then doubled queueNr 32 else heap.heapSz
  if heap.heapSz ≤ queueNr ∧ realloc heapSz = false then (-12, heap)
  else (0, {
    heapArray := auxtraceHeapify heap.heapArray heap.heapCnt queueNr ordinal
    heapCnt := heap.heapCnt + 1
    heapSz := heapSz })

/-- `auxtrace_heap__pop`. -/
def pop (heap : AuxtraceHeap) : AuxtraceHeap :=
  if heap.heapCnt = 0 then heap
  else { heap with
    heapArray := sinkHole HeapItem.rank heap.heapCnt heap.heapArray 0
    heapCnt := heap.heapCnt - 1 }

variable {heap : AuxtraceHeap}

/-- The live items. -/
def live (heap : AuxtraceHeap) : Multiset HeapItem :=
  items heap.heapArray (Finset.range heap.heapCnt)

/-- The min-heap order on the ordinals. -/
def Ordered (heap : AuxtraceHeap) : Prop :=
  Lib.Heap HeapItem.rank heap.heapArray heap.heapCnt

theorem Ordered.root_le (h : heap.Ordered) {item : HeapItem} (hitem : item ∈ heap.live) :
    (heap.heapArray 0).ordinal ≤ item.ordinal :=
  UInt64.le_iff_toNat_le.mpr (Lib.Heap.root_le h hitem)

theorem Ordered.pop (h : heap.Ordered) (h0 : heap.heapCnt ≠ 0) :
    heap.pop.Ordered ∧ heap.live = heap.heapArray 0 ::ₘ heap.pop.live := by
  obtain ⟨n, hn⟩ : ∃ n, heap.heapCnt = n + 1 := Nat.exists_eq_succ_of_ne_zero h0
  unfold Ordered live at *
  rw [hn] at h ⊢
  rw [AuxtraceHeap.pop, if_neg h0]
  simp only [hn, Nat.add_sub_cancel]
  exact Lib.Heap.pop h

theorem pop_empty (h0 : heap.heapCnt = 0) : heap.pop = heap := by
  rw [AuxtraceHeap.pop, if_pos h0]

structure Holds (heap : AuxtraceHeap) (s : Finset ℕ) (ordinal : ℕ → UInt64) : Prop where
  ordered : Lib.Heap HeapItem.rank heap.heapArray heap.heapCnt
  contents : items heap.heapArray (Finset.range heap.heapCnt) = s.val.map fun i => ⟨i, ordinal i⟩
  fits : ∀ i ∈ s, i < heap.heapSz

variable {s : Finset ℕ} {ordinal : ℕ → UInt64}

theorem holds_empty : Holds {} ∅ ordinal :=
  ⟨fun _ hi => absurd hi (Nat.not_lt_zero _), rfl, fun _ hi => absurd hi (Finset.notMem_empty _)⟩

theorem Holds.congr (h : Holds heap s ordinal) {ordinal' : ℕ → UInt64}
    (heq : ∀ i ∈ s, ordinal i = ordinal' i) : Holds heap s ordinal' := by
  refine ⟨h.ordered, ?_, h.fits⟩
  rw [h.contents]
  apply Multiset.map_congr rfl
  intro i hi
  rw [heq i hi]

theorem Holds.heapCnt_eq (h : Holds heap s ordinal) : heap.heapCnt = s.card := by
  have hcard := congrArg Multiset.card h.contents
  simpa [items] using hcard

/-- The entries never run over the end of the array. -/
theorem Holds.heapCnt_le (h : Holds heap s ordinal) : heap.heapCnt ≤ heap.heapSz := by
  rw [h.heapCnt_eq, ← Finset.card_range heap.heapSz]
  apply Finset.card_le_card
  intro i hi
  exact Finset.mem_range.mpr (h.fits i hi)

theorem lt_doubled (queueNr : ℕ) {heapSz : ℕ} (h : heapSz ≠ 0) :
    queueNr < doubled queueNr heapSz := by
  induction hd : queueNr + 1 - heapSz using Nat.strongRecOn generalizing heapSz with
  | _ d ih =>
    rw [doubled]
    split
    · next hle => exact ih _ (by omega) (by omega) rfl
    · next hgt => omega

theorem Holds.add (h : Holds heap s ordinal) {realloc : ℕ → Bool} (hmem : ∀ n, realloc n = true)
    {i : ℕ} (hi : i ∉ s) (t : UInt64) :
    (heap.add realloc i t).1 = 0 ∧
      Holds (heap.add realloc i t).2 (insert i s) (update ordinal i t) := by
  have hadd : heap.add realloc i t = (0, {
      heapArray := auxtraceHeapify heap.heapArray heap.heapCnt i t
      heapCnt := heap.heapCnt + 1
      heapSz := if heap.heapSz ≤ i then doubled i 32 else heap.heapSz }) := by
    simp only [AuxtraceHeap.add, hmem, Bool.true_eq_false, and_false, if_false]
  have hlt : i < doubled i 32 := lt_doubled i (by decide)
  obtain ⟨hordered, hitems⟩ := h.ordered.insert ⟨i, t⟩
  rw [hadd]
  refine ⟨rfl, hordered, ?_, ?_⟩
  · have hsame : items heap.heapArray (Finset.range heap.heapCnt) =
        s.val.map fun j => ⟨j, update ordinal i t j⟩ := by
      rw [h.contents]
      apply Multiset.map_congr rfl
      intro j hj
      rw [update_of_ne (ne_of_mem_of_not_mem hj hi)]
    rw [Finset.insert_val_of_notMem hi, Multiset.map_cons, update_self, ← hsame]
    exact hitems
  · intro j hj
    rcases Finset.mem_insert.mp hj with rfl | hj
    · simp only
      split <;> omega
    · have hfits := h.fits j hj
      simp only
      split <;> omega

theorem Holds.pop (h : Holds heap s ordinal) (h0 : heap.heapCnt ≠ 0) :
    ∃ i ∈ s, heap.heapArray 0 = ⟨i, ordinal i⟩ ∧ (∀ j ∈ s, ordinal i ≤ ordinal j) ∧
      Holds heap.pop (s.erase i) ordinal := by
  obtain ⟨hpopped, hrest⟩ := Ordered.pop h.ordered h0
  have hlive : heap.live = s.val.map fun i => ⟨i, ordinal i⟩ := h.contents
  have hroot : heap.heapArray 0 ∈ s.val.map fun i => (⟨i, ordinal i⟩ : HeapItem) := by
    rw [← hlive, hrest]
    exact Multiset.mem_cons_self _ _
  obtain ⟨i, hi, heq⟩ := Multiset.mem_map.mp hroot
  refine ⟨i, hi, heq.symm, ?_, hpopped, ?_, ?_⟩
  · intro j hj
    have hmem : (⟨j, ordinal j⟩ : HeapItem) ∈ heap.live := by
      rw [hlive]
      exact Multiset.mem_map_of_mem _ hj
    have hle := Ordered.root_le h.ordered hmem
    rw [← heq] at hle
    exact hle
  · have hsplit : (s.val.map fun i => (⟨i, ordinal i⟩ : HeapItem)) =
        ⟨i, ordinal i⟩ ::ₘ (s.erase i).val.map fun i => ⟨i, ordinal i⟩ := by
      rw [← Multiset.map_cons (fun i => (⟨i, ordinal i⟩ : HeapItem)),
        ← Finset.insert_val_of_notMem (s.notMem_erase i), Finset.insert_erase hi]
    rw [hlive, hsplit, ← heq] at hrest
    exact ((Multiset.cons_inj_right _).mp hrest).symm
  · intro j hj
    rw [AuxtraceHeap.pop, if_neg h0]
    exact h.fits j (Finset.mem_of_mem_erase hj)

def IsDouble (heapSz : UInt32) : Prop := heapSz = 0 ∨ ∃ k ≤ 31, heapSz.toNat = 2 ^ k

theorem toNat_shift (heapSz : UInt32) : (heapSz <<< 1).toNat = heapSz.toNat * 2 % 2 ^ 32 := by
  simp [UInt32.toNat_shiftLeft, Nat.shiftLeft_eq]

theorem IsDouble.shift {heapSz : UInt32} (h : IsDouble heapSz) : IsDouble (heapSz <<< 1) := by
  have hshift := toNat_shift heapSz
  rcases h with rfl | ⟨k, hk, hpow⟩
  · exact .inl rfl
  · rw [hpow, ← Nat.pow_succ] at hshift
    rcases Nat.lt_or_ge k 31 with hlt | hge
    · refine .inr ⟨k + 1, hlt, ?_⟩
      rw [hshift, Nat.mod_eq_of_lt (Nat.pow_lt_pow_right (by decide) (by omega))]
    · obtain rfl : k = 31 := by omega
      exact .inl (UInt32.toNat_inj.mp hshift)

theorem IsDouble.le {heapSz : UInt32} (h : IsDouble heapSz) : heapSz.toNat ≤ 2 ^ 31 := by
  rcases h with rfl | ⟨k, hk, hpow⟩
  · exact Nat.zero_le _
  · exact hpow ▸ Nat.pow_le_pow_right (by decide) hk

theorem isDouble_init : IsDouble 32 := .inr ⟨5, by decide, by decide⟩

theorem le_of_leaves {queueNr heapSz r : UInt32} (h : Leaves (doublePass queueNr) heapSz r)
    (hdouble : IsDouble heapSz) : r.toNat ≤ 2 ^ 31 := by
  refine (h.invariant (I := IsDouble) (Q := IsDouble) (fun sz hsz => ?_) hdouble).le
  unfold doublePass
  split
  · exact hsz.shift
  · exact hsz

/-- The size becomes zero, and stays it. -/
theorem not_leaves {queueNr : UInt32} (hlarge : 2 ^ 31 ≤ queueNr.toNat) (r : UInt32) :
    ¬ Leaves (doublePass queueNr) 32 r := by
  intro h
  refine h.exits (I := IsDouble) (fun sz hsz => ⟨sz <<< 1, if_pos ?_, hsz.shift⟩) isDouble_init
  exact UInt32.le_iff_toNat_le.mpr (hsz.le.trans hlarge)

theorem leaves_doubled {queueNr : UInt32} (hsmall : queueNr.toNat < 2 ^ 31) (heapSz : UInt32)
    (h0 : heapSz.toNat ≠ 0) :
    ∃ r, Leaves (doublePass queueNr) heapSz r ∧ r.toNat = doubled queueNr.toNat heapSz.toNat := by
  refine exists_leaves (I := fun sz => sz.toNat ≠ 0 ∧
      doubled queueNr.toNat sz.toNat = doubled queueNr.toNat heapSz.toNat)
    (fun sz => queueNr.toNat + 1 - sz.toNat) ?_ heapSz ⟨h0, rfl⟩
  rintro sz ⟨hne, hsame⟩
  rw [doubled] at hsame
  unfold doublePass
  split
  · next hle =>
    rw [UInt32.le_iff_toNat_le] at hle
    have hshift : (sz <<< 1).toNat = 2 * sz.toNat := by
      rw [toNat_shift]
      omega
    rw [if_pos ⟨hle, hne⟩] at hsame
    refine ⟨⟨by omega, by rw [hshift, hsame]⟩, by omega⟩
  · next hgt =>
    rw [UInt32.le_iff_toNat_le] at hgt
    rw [if_neg fun h => hgt h.1] at hsame
    exact hsame

theorem adds_add (realloc : ℕ → Bool) (heap : AuxtraceHeap) {queueNr : UInt32}
    (hsmall : queueNr.toNat < 2 ^ 31) (ordinal : UInt64) :
    heap.Adds realloc queueNr ordinal (heap.add realloc queueNr.toNat ordinal) := by
  unfold Adds add
  split
  · next hle =>
    obtain ⟨sz, hleaves, hsz⟩ := leaves_doubled hsmall 32 (by decide)
    refine ⟨sz, hleaves, ?_⟩
    rw [hsz]
    change _ = if realloc (doubled queueNr.toNat 32) = true then
      (0, heap.push (doubled queueNr.toNat 32) queueNr.toNat ordinal) else (-12, heap)
    cases hmem : realloc (doubled queueNr.toNat 32) <;> simp [hle, hmem, push]
  · next hgt => simp [hgt, push]

/-- The heaps that calls come to, one after the other, as long as each of them returns. -/
inductive Reached : AuxtraceHeap → Prop
  | empty : Reached {}
  | add {heap : AuxtraceHeap} {realloc : ℕ → Bool} {queueNr : UInt32} {ordinal : UInt64}
    {r : Int × AuxtraceHeap} : Reached heap → heap.Adds realloc queueNr ordinal r → Reached r.2
  | pop {heap : AuxtraceHeap} : Reached heap → Reached heap.pop

theorem Ordered.adds (h : heap.Ordered) {realloc : ℕ → Bool} {queueNr : UInt32} {ordinal : UInt64}
    {r : Int × AuxtraceHeap} (hadds : heap.Adds realloc queueNr ordinal r) :
    r = (-12, heap) ∧ (∃ n, realloc n = false) ∨
      r.1 = 0 ∧ r.2.Ordered ∧ r.2.live = ⟨queueNr.toNat, ordinal⟩ ::ₘ heap.live := by
  obtain ⟨hordered, hitems⟩ := Lib.Heap.insert h ⟨queueNr.toNat, ordinal⟩
  unfold Adds at hadds
  split at hadds
  · obtain ⟨sz, -, rfl⟩ := hadds
    cases hmem : realloc sz.toNat with
    | true => exact .inr ⟨rfl, hordered, hitems⟩
    | false => exact .inl ⟨rfl, _, hmem⟩
  · subst hadds
    exact .inr ⟨rfl, hordered, hitems⟩

theorem Reached.ordered (h : Reached heap) : heap.Ordered ∧ heap.heapSz ≤ 2 ^ 31 := by
  induction h with
  | empty => exact ⟨fun _ hi => absurd hi (Nat.not_lt_zero _), Nat.zero_le _⟩
  | add _ hadds ih =>
    refine ⟨?_, ?_⟩
    · rcases ih.1.adds hadds with ⟨rfl, -⟩ | ⟨-, hordered, -⟩
      · exact ih.1
      · exact hordered
    · unfold Adds at hadds
      split at hadds
      · obtain ⟨sz, hleaves, rfl⟩ := hadds
        split
        · exact le_of_leaves hleaves isDouble_init
        · exact ih.2
      · subst hadds
        exact ih.2
  | @pop heap _ ih =>
    by_cases h0 : heap.heapCnt = 0
    · rw [pop_empty h0]
      exact ih
    · refine ⟨(ih.1.pop h0).1, ?_⟩
      rw [AuxtraceHeap.pop, if_neg h0]
      exact ih.2

/-- After any calls the heap is a priority queue: it is ordered, its root is least, adding returns
for queue numbers below `2 ^ 31` and adds one pair, unless there is no memory, and popping takes the
root. -/
theorem priority_queue (heap : AuxtraceHeap) (hreached : Reached heap) :
    heap.Ordered ∧ (∀ item ∈ heap.live, (heap.heapArray 0).ordinal ≤ item.ordinal) ∧
      (∀ realloc queueNr ordinal,
        (∃ r, heap.Adds realloc queueNr ordinal r) ↔ queueNr.toNat < 2 ^ 31) ∧
      (∀ realloc queueNr ordinal r, heap.Adds realloc queueNr ordinal r →
        r = (-12, heap) ∧ (∃ n, realloc n = false) ∨
          r.1 = 0 ∧ r.2.live = ⟨queueNr.toNat, ordinal⟩ ::ₘ heap.live) ∧
      (heap.heapCnt ≠ 0 → heap.live = heap.heapArray 0 ::ₘ heap.pop.live) ∧
      (heap.heapCnt = 0 → heap.pop = heap) := by
  obtain ⟨hordered, hsz⟩ := hreached.ordered
  refine ⟨hordered, fun item => hordered.root_le, fun realloc queueNr ordinal => ⟨?_, fun h =>
    ⟨_, adds_add realloc heap h ordinal⟩⟩, ?_, fun h0 => (hordered.pop h0).2, pop_empty⟩
  · rintro ⟨r, hadds⟩
    by_contra hlarge
    rw [Nat.not_lt] at hlarge
    rw [Adds, if_pos (hsz.trans hlarge)] at hadds
    obtain ⟨sz, hleaves, -⟩ := hadds
    exact not_leaves hlarge sz hleaves
  · intro realloc queueNr ordinal r hadds
    rcases hordered.adds hadds with hfail | ⟨herr, -, hlive⟩
    · exact .inl hfail
    · exact .inr ⟨herr, hlive⟩

/-- Two queues with the same ordinal and one with a smaller, of which the last is popped. -/
theorem priority_queue_three :
    let heap := ((((({} : AuxtraceHeap).push 32 3 7).push 32 1 7).push 32 2 5).pop)
    Reached heap ∧ heap.Ordered ∧ heap.heapCnt = 2 ∧
      heap.live = heap.heapArray 0 ::ₘ heap.pop.live := by
  intro heap
  have hadd (heap : AuxtraceHeap) (hsz : heap.heapSz = 0 ∨ heap.heapSz = 32) (queueNr : UInt32)
      (hsmall : ¬ 32 ≤ queueNr) (ordinal : UInt64) (h : Reached heap) :
      Reached (heap.push 32 queueNr.toNat ordinal) := by
    refine @Reached.add heap (fun _ => true) queueNr ordinal (0, _) h ?_
    have hlt : ¬ 32 ≤ queueNr.toNat := fun hle => hsmall (UInt32.le_iff_toNat_le.mpr hle)
    rcases hsz with hsz | hsz
    · rw [Adds, if_pos (hsz ▸ Nat.zero_le _)]
      exact ⟨32, .leave (if_neg hsmall), rfl⟩
    · rw [Adds, if_neg (hsz ▸ hlt), hsz]
      rfl
  have hreached : Reached heap := by
    refine .pop (hadd _ (.inr rfl) 2 (by decide) 5 ?_)
    refine hadd _ (.inr rfl) 1 (by decide) 7 ?_
    exact hadd _ (.inl rfl) 3 (by decide) 7 .empty
  obtain ⟨hordered, -, -, -, hpop, -⟩ := priority_queue heap hreached
  exact ⟨hreached, hordered, rfl, hpop (by decide)⟩

/-- With queue number `2 ^ 31` the loop does not come to an end. -/
theorem large_queue_never_added :
    Reached {} ∧ ¬ ∃ r, ({} : AuxtraceHeap).Adds (fun _ => true) 0x80000000 7 r :=
  ⟨.empty, fun ⟨_, sz, hleaves, _⟩ => not_leaves (by decide) sz hleaves⟩

end AuxtraceHeap

end RPerf.Queues
