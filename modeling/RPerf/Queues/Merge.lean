import Mathlib.Algebra.BigOperators.Group.Finset.Basic
import Mathlib.Algebra.Order.BigOperators.Group.Finset
import RPerf.Lib.Loops
import RPerf.Queues.Heap
import RPerf.Queues.RunDecoder

/-!
# Processing all queues

`intel_pt_setup_queues` and `intel_pt_process_queues` of `intel-pt.c`, with `sync_switch`
off: the queue with the least time is taken off the heap, run until its time has passed that
of the next queue, and put back.
-/

namespace RPerf.Queues

open Function Lib Decode

/-- The fields of `struct intel_pt` that the queues are processed with. -/
structure IntelPt where
  pt : Pt
  nrQueues : ℕ
  queues : ℕ → Ptq
  heap : AuxtraceHeap := {}
  sampled : List (ℕ × Sampled) := []

/-- `intel_pt_setup_queue`. -/
def setupQueue (realloc : ℕ → Bool) (queueNr : ℕ) (s : IntelPt) : Int × IntelPt :=
  let q := s.queues queueNr
  if q.onHeap || s.pt.timelessDecoding then (0, s)
  else
    let q := q.setup
    if q.onHeap then
      let (ret, heap) := s.heap.add realloc queueNr q.timestamp
      if ret ≠ 0 then
        (ret, { s with queues := update s.queues queueNr { q with onHeap := false }, heap := heap })
      else (0, { s with queues := update s.queues queueNr q, heap := heap })
    else (0, { s with queues := update s.queues queueNr q })

/-- The loop of `intel_pt_setup_queues`. -/
def setupEach (realloc : ℕ → Bool) : List ℕ → IntelPt → Int × IntelPt
  | [], s => (0, s)
  | queueNr :: rest, s =>
    let (ret, s) := setupQueue realloc queueNr s
    if ret ≠ 0 then (ret, s) else setupEach realloc rest s

def setupQueues (realloc : ℕ → Bool) (s : IntelPt) : Int × IntelPt :=
  setupEach realloc (List.range s.nrQueues) s

def runBound (heap : AuxtraceHeap) (timestamp : UInt64) : UInt64 :=
  if heap.heapCnt ≠ 0 then
    let ts := (heap.heapArray 0).ordinal + 1
    if timestamp < ts then timestamp else ts
  else timestamp

/-- A pass of the loop of `intel_pt_process_queues`. -/
def processPass (realloc : ℕ → Bool) (deliver : ℕ → Int) (timestamp : UInt64) (s : IntelPt) :
    Pass IntelPt (Int × IntelPt) :=
  if s.heap.heapCnt = 0 then .leave (0, s)
  else if timestamp ≤ (s.heap.heapArray 0).ordinal then .leave (0, s)
  else
    let queueNr := (s.heap.heapArray 0).queueNr
    let heap := s.heap.pop
    let r := runDecoder s.pt deliver (runBound heap timestamp) (s.queues queueNr)
    let s := { s with
      queues := update s.queues queueNr r.ptq
      sampled := s.sampled ++ r.sampled.map fun x => (queueNr, x) }
    if r.ret < 0 then
      .leave (r.ret, { s with heap := (heap.add realloc queueNr r.timestamp).2 })
    else if r.ret = 0 then
      let (ret, heap) := heap.add realloc queueNr r.timestamp
      if ret < 0 then .leave (ret, { s with heap := heap }) else .again { s with heap := heap }
    else
      .again { s with
        heap := heap, queues := update s.queues queueNr { r.ptq with onHeap := false } }

/-- Calls of `intel_pt_process_queues` that return 0, one after the other. -/
def Processes (realloc : ℕ → Bool) (deliver : ℕ → Int) :
    List UInt64 → IntelPt → IntelPt → Prop
  | [], s, s' => s' = s
  | timestamp :: rest, s, s' =>
    ∃ s₁, Leaves (processPass realloc deliver timestamp) s (0, s₁) ∧
      Processes realloc deliver rest s₁ s'

def Pt.timeline (pt : Pt) : List State → List (State × UInt64)
  | [] => []
  | state :: rest => (state, state.timestamp) :: pt.stamps state.timestamp rest

namespace IntelPt

variable (s : IntelPt)

def timeline (i : ℕ) : List (State × UInt64) := s.pt.timeline (errorFree (s.queues i).outputs)

/-- What has been sampled of a queue. -/
def sampledOf (i : ℕ) : List (State × UInt64) :=
  (s.sampled.filter (·.1 = i)).map (·.2.key)

def ahead (i : ℕ) : List (State × UInt64) := (s.queues i).ahead s.pt

def onHeap : Finset ℕ := (Finset.range s.nrQueues).filter fun i => (s.queues i).onHeap = true

/-- How much is left to sample. -/
def left : ℕ := ∑ i ∈ Finset.range s.nrQueues, (s.ahead i).length

/-- The queues before they are set up. -/
structure Start : Prop where
  timed : s.pt.timelessDecoding = false
  heap : s.heap = {}
  sampled : s.sampled = []
  queues : ∀ i < s.nrQueues, s.queues i = Ptq.new (s.queues i).outputs
  nodata : ∀ i < s.nrQueues, ∀ state ∈ (s.queues i).outputs, state.err ≠ some .nodata
  nonzero : ∀ i < s.nrQueues, ∀ state ∈ errorFree (s.queues i).outputs, state.timestamp ≠ 0

end IntelPt

/-- The times of each timeline never decrease, and stay below `MAX_TIMESTAMP`. -/
structure Timelines (n : ℕ) (line : ℕ → List (State × UInt64)) : Prop where
  mono : ∀ i < n, (line i).Pairwise fun a b => a.2 ≤ b.2
  below_max : ∀ i < n, ∀ x ∈ line i, x.2 < 0xffffffffffffffff

structure Merging (pt : Pt) (n : ℕ) (line : ℕ → List (State × UInt64)) (limit : UInt64)
    (s : IntelPt) : Prop where
  pt : s.pt = pt
  nrQueues : s.nrQueues = n
  heap : s.heap.Holds s.onHeap fun i => (s.queues i).timestamp
  waits : ∀ i ∈ s.onHeap, (s.queues i).haveSample = true
  dry : ∀ i < n, (s.queues i).onHeap = false → s.ahead i = []
  nodata : ∀ i < n, ∀ state ∈ (s.queues i).outputs, state.err ≠ some .nodata
  split : ∀ i < n, s.sampledOf i ++ s.ahead i = line i
  ordered : s.sampled.Pairwise fun a b => a.2.timestamp ≤ b.2.timestamp
  below : ∀ x ∈ s.sampled, ∀ i < n, ∀ y ∈ s.ahead i, x.2.timestamp ≤ y.2
  early : ∀ x ∈ s.sampled, x.2.timestamp < limit

variable {s start : IntelPt} {q : Ptq} {outputs : List State} {todo : List ℕ}

theorem Samples.of_mem {q' : Ptq} {sampled : List Sampled} (hs : Samples q q' sampled) {x : Sampled}
    (hx : x ∈ sampled) : x.timestamp = q.timestamp ∧ q.haveSample = true := by
  have hkey := List.mem_map_of_mem (f := Sampled.key) hx
  rw [hs.sampled] at hkey
  cases hq : q.haveSample with
  | false => simp [hq] at hkey
  | true =>
    rw [hq, if_pos rfl, List.mem_singleton] at hkey
    exact ⟨congrArg Prod.snd hkey, rfl⟩

structure RanTo (pt : Pt) (bound : UInt64) (outputs : List State) (q : Ptq) (r : Run) : Prop where
  suffix : r.ptq.outputs <:+ outputs
  onHeap : r.ptq.onHeap = q.onHeap
  nonempty : q.haveSample = true → r.sampled ≠ []
  ret : r.ret = 0 ∧ r.ptq.haveSample = true ∧ r.timestamp = r.ptq.timestamp ∨
    r.ret = 1 ∧ r.ptq.ahead pt = []
  sampled : ∀ x ∈ r.sampled,
    x.timestamp = q.timestamp ∧ q.haveSample = true ∨ x.timestamp < bound

theorem Samples.nonempty {q' : Ptq} {sampled : List Sampled} (hs : Samples q q' sampled)
    (hq : q.haveSample = true) : sampled ≠ [] := by
  rintro rfl
  have hnil := hs.sampled
  rw [hq] at hnil
  cases hnil

theorem RunsTo.ranTo {pt : Pt} {bound : UInt64} {r : Run}
    (h : RunsTo pt (fun _ => 0) bound outputs q r) (hp : pt.timelessDecoding = false)
    (hno : ∀ state ∈ outputs, state.err ≠ some .nodata) : RanTo pt bound outputs q r := by
  induction h with
  | failed _ hn | lost _ _ hn => exact absurd rfl hn
  | nodata _ he => exact absurd he (hno _ List.mem_cons_self)
  | dry hs =>
    refine ⟨List.suffix_rfl, hs.onHeap, hs.nonempty, .inr ⟨rfl, ?_⟩,
      fun x hx => .inl (hs.of_mem hx)⟩
    simp [Ptq.ahead, hs.taken, Pt.stamps]
  | error hs _ _ ih =>
    have hih := ih fun state hs => hno state (List.mem_cons_of_mem _ hs)
    refine ⟨hih.suffix.trans (List.suffix_cons _ _), hih.onHeap.trans hs.onHeap,
      fun hq => List.append_ne_nil_of_left_ne_nil (hs.nonempty hq) _, hih.ret, ?_⟩
    intro x hx
    rcases List.mem_append.mp hx with hx | hx
    · exact .inl (hs.of_mem hx)
    · rcases hih.sampled x hx with ⟨-, hhave⟩ | hlt
      · rw [hs.taken] at hhave
        cases hhave
      · exact .inr hlt
  | reached hs =>
    exact ⟨List.suffix_cons _ _, hs.onHeap, hs.nonempty, .inl ⟨rfl, rfl, rfl⟩,
      fun x hx => .inl (hs.of_mem hx)⟩
  | next hs _ hlt _ ih =>
    have hih := ih fun state hs => hno state (List.mem_cons_of_mem _ hs)
    refine ⟨hih.suffix.trans (List.suffix_cons _ _), hih.onHeap.trans hs.onHeap,
      fun hq => List.append_ne_nil_of_left_ne_nil (hs.nonempty hq) _, hih.ret, ?_⟩
    intro x hx
    rcases List.mem_append.mp hx with hx | hx
    · exact .inl (hs.of_mem hx)
    · rcases hih.sampled x hx with ⟨heq, -⟩ | hlt'
      · exact .inr (heq ▸ hlt hp)
      · exact .inr hlt'

section

variable {pt : Pt} {n : ℕ} {line : ℕ → List (State × UInt64)} {limit : UInt64} {s : IntelPt}

variable {i : ℕ} {heap : AuxtraceHeap} {realloc : ℕ → Bool}

theorem mem_onHeap : i ∈ s.onHeap ↔ i < s.nrQueues ∧ (s.queues i).onHeap = true := by
  simp [IntelPt.onHeap]

theorem Merging.ahead_pairwise (h : Merging pt n line limit s) (hl : Timelines n line)
    (hi : i < n) :
    (s.ahead i).Pairwise fun a b => a.2 ≤ b.2 := by
  have hpair := hl.mono i hi
  rw [← h.split i hi] at hpair
  exact (List.pairwise_append.mp hpair).2.1

theorem Merging.ahead_eq (h : Merging pt n line limit s) (hi : i ∈ s.onHeap) :
    s.ahead i = ((s.queues i).state, (s.queues i).timestamp) ::
      s.pt.stamps (s.queues i).timestamp (errorFree (s.queues i).outputs) :=
  Ptq.ahead_of_haveSample (h.waits i hi) s.pt

theorem Merging.timestamp_le (h : Merging pt n line limit s) (hl : Timelines n line)
    (hi : i ∈ s.onHeap) {y : State × UInt64} (hy : y ∈ s.ahead i) :
    (s.queues i).timestamp ≤ y.2 := by
  have hin : i < n := h.nrQueues ▸ (mem_onHeap.mp hi).1
  have hpair := h.ahead_pairwise hl hin
  rw [h.ahead_eq hi] at hpair hy
  rcases List.mem_cons.mp hy with rfl | hy
  · exact UInt64.le_refl _
  · exact List.rel_of_pairwise_cons hpair hy

theorem Merging.mem_onHeap_of_mem_ahead (h : Merging pt n line limit s) (hi : i < n)
    {y : State × UInt64} (hy : y ∈ s.ahead i) : i ∈ s.onHeap := by
  rw [mem_onHeap, h.nrQueues]
  refine ⟨hi, ?_⟩
  cases hon : (s.queues i).onHeap with
  | true => rfl
  | false =>
    rw [h.dry i hi hon] at hy
    exact absurd hy List.not_mem_nil

theorem Merging.timestamp_lt_max (h : Merging pt n line limit s) (hl : Timelines n line)
    (hi : i ∈ s.onHeap) : (s.queues i).timestamp < 0xffffffffffffffff := by
  have hin : i < n := h.nrQueues ▸ (mem_onHeap.mp hi).1
  apply hl.below_max i hin ((s.queues i).state, (s.queues i).timestamp)
  rw [← h.split i hin, h.ahead_eq hi]
  simp

theorem runBound_spec {set : Finset ℕ} {ordinal : ℕ → UInt64} (h : heap.Holds set ordinal)
    (hmax : ∀ j ∈ set, ordinal j < 0xffffffffffffffff) {t : UInt64} (ht : t < runBound heap limit) :
    t < limit ∧ ∀ j ∈ set, t ≤ ordinal j := by
  by_cases h0 : heap.heapCnt = 0
  · have hnone : set = ∅ := Finset.card_eq_zero.mp (h.heapCnt_eq ▸ h0)
    simp only [runBound, h0, ne_eq, not_true_eq_false, if_false] at ht
    exact ⟨ht, by simp [hnone]⟩
  · obtain ⟨k, hk, hroot, hmin, -⟩ := h.pop h0
    have hk' := UInt64.lt_iff_toNat_lt.mp (hmax k hk)
    have hsucc : (ordinal k + 1).toNat = (ordinal k).toNat + 1 := by
      rw [UInt64.toNat_add]
      exact Nat.mod_eq_of_lt (Nat.add_lt_of_lt_sub hk')
    have hnext : t < ordinal k + 1 → ∀ j ∈ set, t ≤ ordinal j := by
      intro hlt j hj
      apply UInt64.le_trans _ (hmin j hj)
      rw [UInt64.lt_iff_toNat_lt, hsucc] at hlt
      exact UInt64.le_iff_toNat_le.mpr (Nat.le_of_lt_succ hlt)
    simp only [runBound, h0, ne_eq, not_false_eq_true, if_true, hroot] at ht
    split at ht
    · next hlt => exact ⟨ht, hnext (UInt64.lt_trans ht hlt)⟩
    · next hle => exact ⟨UInt64.lt_of_lt_of_le ht (UInt64.not_lt.mp hle), hnext ht⟩

theorem Merging.le_of_leave (h : Merging pt n line limit s) (hl : Timelines n line)
    (hleave : s.heap.heapCnt ≠ 0 → limit ≤ (s.heap.heapArray 0).ordinal) :
    ∀ i < n, ∀ y ∈ s.ahead i, limit ≤ y.2 := by
  intro i hi y hy
  have hon := h.mem_onHeap_of_mem_ahead hi hy
  have h0 : s.heap.heapCnt ≠ 0 := by
    rw [h.heap.heapCnt_eq]
    exact Finset.card_ne_zero_of_mem hon
  obtain ⟨k, -, hroot, hmin, -⟩ := h.heap.pop h0
  have hlimit := hleave h0
  rw [hroot] at hlimit
  exact UInt64.le_trans hlimit (UInt64.le_trans (hmin i hon) (h.timestamp_le hl hon hy))

def IntelPt.advance (s : IntelPt) (i : ℕ) (q : Ptq) (heap : AuxtraceHeap) (xs : List Sampled) :
    IntelPt :=
  { s with
    queues := update s.queues i q, heap := heap
    sampled := s.sampled ++ xs.map fun x => (i, x) }

theorem queues_advance (i : ℕ) (q : Ptq) (heap : AuxtraceHeap) (xs : List Sampled) (j : ℕ) :
    (s.advance i q heap xs).queues j = if j = i then q else s.queues j :=
  update_apply s.queues i q j

theorem ahead_advance (i : ℕ) (q : Ptq) (heap : AuxtraceHeap) (xs : List Sampled) (j : ℕ) :
    (s.advance i q heap xs).ahead j = if j = i then q.ahead s.pt else s.ahead j := by
  by_cases hj : j = i <;> simp [IntelPt.ahead, IntelPt.advance, hj]

theorem sampledOf_advance (i : ℕ) (q : Ptq) (heap : AuxtraceHeap) (xs : List Sampled) (j : ℕ) :
    (s.advance i q heap xs).sampledOf j =
      s.sampledOf j ++ if j = i then xs.map Sampled.key else [] := by
  by_cases hj : j = i
  · subst hj
    simp [IntelPt.sampledOf, IntelPt.advance, List.filter_map, Function.comp_def]
  · have hj' : ¬ i = j := fun h => hj h.symm
    simp [IntelPt.sampledOf, IntelPt.advance, List.filter_map, Function.comp_def, hj, hj']

theorem onHeap_advance (hi : i ∈ s.onHeap) (q : Ptq) (heap : AuxtraceHeap) (xs : List Sampled) :
    (s.advance i q heap xs).onHeap =
      if q.onHeap = true then s.onHeap else s.onHeap.erase i := by
  have hn := (mem_onHeap.mp hi).1
  have hflag := (mem_onHeap.mp hi).2
  ext j
  rw [mem_onHeap]
  by_cases hj : j = i
  · subst hj
    cases hq : q.onHeap <;> simp [IntelPt.advance, hq, mem_onHeap, hn, hflag]
  · cases hq : q.onHeap <;> simp [IntelPt.advance, hj, mem_onHeap]

theorem Merging.advance (h : Merging pt n line limit s) (hl : Timelines n line) (hi : i ∈ s.onHeap)
    {q : Ptq} {xs : List Sampled} (hahead : xs.map Sampled.key ++ q.ahead pt = s.ahead i)
    (hearly : ∀ x ∈ xs, x.timestamp < limit)
    (hbelow : ∀ x ∈ xs, ∀ j ∈ s.onHeap.erase i, x.timestamp ≤ (s.queues j).timestamp)
    (hout : q.outputs <:+ (s.queues i).outputs) (hheap : heap.Holds (s.advance i q heap xs).onHeap
      fun j => ((s.advance i q heap xs).queues j).timestamp)
    (hq : q.onHeap = true ∧ q.haveSample = true ∨ q.onHeap = false ∧ q.ahead pt = []) :
    Merging pt n line limit (s.advance i q heap xs) := by
  have hin : i < n := h.nrQueues ▸ (mem_onHeap.mp hi).1
  have hpt := h.pt
  have hpair := h.ahead_pairwise hl hin
  rw [← hahead] at hpair
  obtain ⟨hxs, -, hrest⟩ := List.pairwise_append.mp hpair
  constructor
  case pt => exact h.pt
  case nrQueues => exact h.nrQueues
  case heap => exact hheap
  case waits =>
    intro j hj
    obtain ⟨hjn, hflag⟩ := mem_onHeap.mp hj
    rw [queues_advance] at hflag ⊢
    split_ifs at hflag ⊢ with hji
    · rcases hq with ⟨-, hhave⟩ | ⟨hoff, -⟩
      · exact hhave
      · rw [hoff] at hflag
        cases hflag
    · exact h.waits j (mem_onHeap.mpr ⟨hjn, hflag⟩)
  case dry =>
    intro j hj hflag
    rw [queues_advance] at hflag
    rw [ahead_advance]
    split_ifs at hflag ⊢ with hji
    · rcases hq with ⟨hon, -⟩ | ⟨-, hdry⟩
      · rw [hon] at hflag
        cases hflag
      · exact h.pt ▸ hdry
    · exact h.dry j hj hflag
  case nodata =>
    intro j hj state hstate
    rw [queues_advance] at hstate
    split_ifs at hstate with hji
    · exact h.nodata i hin state (hout.subset hstate)
    · exact h.nodata j hj state hstate
  case split =>
    intro j hj
    rw [sampledOf_advance, ahead_advance]
    split_ifs with hji
    · rw [hji, List.append_assoc, h.pt, hahead]
      exact h.split i hin
    · rw [List.append_nil]
      exact h.split j hj
  case ordered =>
    apply List.pairwise_append.mpr
    refine ⟨h.ordered, ?_, ?_⟩
    · rw [List.pairwise_map] at hxs ⊢
      exact hxs
    · intro x hx y hy
      obtain ⟨z, hz, rfl⟩ := List.mem_map.mp hy
      apply h.below x hx i hin z.key
      rw [← hahead]
      exact List.mem_append_left _ (List.mem_map_of_mem hz)
  case below =>
    intro x hx j hj y hy
    have hyold : y ∈ s.ahead j := by
      rw [ahead_advance] at hy
      split_ifs at hy with hji
      · rw [hji, ← hahead, ← h.pt]
        exact List.mem_append_right _ hy
      · exact hy
    rcases List.mem_append.mp hx with hx | hx
    · exact h.below x hx j hj y hyold
    · obtain ⟨z, hz, rfl⟩ := List.mem_map.mp hx
      rw [ahead_advance] at hy
      split_ifs at hy with hji
      · exact hrest z.key (List.mem_map_of_mem hz) y (h.pt ▸ hy)
      · have hon := h.mem_onHeap_of_mem_ahead hj hyold
        apply UInt64.le_trans (hbelow z hz j (Finset.mem_erase.mpr ⟨hji, hon⟩))
        exact h.timestamp_le hl hon hyold
  case early =>
    intro x hx
    rcases List.mem_append.mp hx with hx | hx
    · exact h.early x hx
    · obtain ⟨z, hz, rfl⟩ := List.mem_map.mp hx
      exact hearly z hz

theorem left_advance (h : Merging pt n line limit s) (hi : i ∈ s.onHeap) {q : Ptq}
    {xs : List Sampled} (hahead : xs.map Sampled.key ++ q.ahead pt = s.ahead i) (hxs : xs ≠ []) :
    (s.advance i q heap xs).left < s.left := by
  have hlen : ((s.advance i q heap xs).ahead i).length < (s.ahead i).length := by
    have := List.length_pos_of_ne_nil hxs
    rw [ahead_advance, if_pos rfl, ← hahead, h.pt, List.length_append, List.length_map]
    omega
  apply Finset.sum_lt_sum
  · intro j _
    by_cases hj : j = i
    · rw [hj]
      exact hlen.le
    · rw [ahead_advance, if_neg hj]
  · exact ⟨i, Finset.mem_range.mpr (mem_onHeap.mp hi).1, hlen⟩

theorem Merging.sampled_le (h : Merging pt n line limit s) (hl : Timelines n line)
    (hmin : ∀ j ∈ s.onHeap, (s.queues i).timestamp ≤ (s.queues j).timestamp)
    (hlt : (s.queues i).timestamp < limit)
    (hheap : heap.Holds (s.onHeap.erase i) fun j => (s.queues j).timestamp) {outputs : List State}
    {r : Run} (hran : RanTo pt (runBound heap limit) outputs (s.queues i) r) {x : Sampled}
    (hx : x ∈ r.sampled) :
    x.timestamp < limit ∧ ∀ j ∈ s.onHeap.erase i, x.timestamp ≤ (s.queues j).timestamp := by
  rcases hran.sampled x hx with ⟨heq, -⟩ | hbound
  · rw [heq]
    exact ⟨hlt, fun j hj => hmin j (Finset.mem_of_mem_erase hj)⟩
  · apply runBound_spec hheap _ hbound
    intro j hj
    exact h.timestamp_lt_max hl (Finset.mem_of_mem_erase hj)

theorem Merging.pass (h : Merging pt n line limit s) (hl : Timelines n line)
    (hp : pt.timelessDecoding = false) (hmem : ∀ k, realloc k = true) :
    (processPass realloc (fun _ => 0) limit s).Satisfies
      (fun s' => Merging pt n line limit s' ∧ s'.left < s.left)
      (fun r => r.1 = 0 ∧ Merging pt n line limit r.2 ∧
        ∀ i < n, ∀ y ∈ r.2.ahead i, limit ≤ y.2) := by
  rw [processPass]
  split
  · next h0 => exact ⟨rfl, h, h.le_of_leave hl fun hne => absurd h0 hne⟩
  · next h0 =>
    split
    · next hle => exact ⟨rfl, h, h.le_of_leave hl fun _ => hle⟩
    · next hgt =>
      obtain ⟨i, hi, hroot, hmin, hpop⟩ := h.heap.pop h0
      obtain rfl := h.pt
      simp only [hroot] at hgt ⊢
      have hran := (runDecoder_runsTo s.pt (fun _ => 0) (runBound s.heap.pop limit)
        (s.queues i)).ranTo hp (h.nodata i (h.nrQueues ▸ (mem_onHeap.mp hi).1))
      have hahead := runDecoder_ahead s.pt (fun _ => 0) (runBound s.heap.pop limit) (s.queues i)
      generalize runDecoder s.pt (fun _ => 0) (runBound s.heap.pop limit) (s.queues i) = r
        at hran hahead ⊢
      have hsampled := fun x hx => h.sampled_le hl hmin (UInt64.not_le.mp hgt) hpop hran (x := x) hx
      have hxs := hran.nonempty (h.waits i hi)
      rcases hran.ret with ⟨hret, hhave, hts⟩ | ⟨hret, hdry⟩
      · -- the queue has passed the next one and goes back on the heap
        obtain ⟨hadded, hholds⟩ := hpop.add hmem (Finset.notMem_erase i s.onHeap) r.timestamp
        rw [Finset.insert_erase hi] at hholds
        simp only [hret, lt_irrefl, if_false, if_true]
        generalize s.heap.pop.add realloc i r.timestamp = added at hadded hholds ⊢
        obtain ⟨ret, heap⟩ := added
        obtain rfl : ret = 0 := hadded
        have hon : r.ptq.onHeap = true := hran.onHeap.trans (mem_onHeap.mp hi).2
        have hheap : heap.Holds (s.advance i r.ptq heap r.sampled).onHeap
            fun j => ((s.advance i r.ptq heap r.sampled).queues j).timestamp := by
          rw [onHeap_advance hi, if_pos hon]
          apply hholds.congr
          intro j _
          rw [queues_advance, update_apply, hts]
          split_ifs <;> rfl
        exact ⟨h.advance hl hi hahead (fun x hx => (hsampled x hx).1)
          (fun x hx => (hsampled x hx).2) hran.suffix hheap (.inl ⟨hon, hhave⟩),
          left_advance h hi hahead hxs⟩
      · -- the decoder of the queue has no more data
        simp only [hret, Int.reduceLT, if_false, one_ne_zero, update_idem]
        have hheap : s.heap.pop.Holds
            (s.advance i { r.ptq with onHeap := false } s.heap.pop r.sampled).onHeap fun j =>
              ((s.advance i { r.ptq with onHeap := false } s.heap.pop r.sampled).queues
                j).timestamp := by
          rw [onHeap_advance hi, if_neg Bool.false_ne_true]
          apply hpop.congr
          intro j hj
          rw [queues_advance, if_neg (Finset.ne_of_mem_erase hj)]
        have hahead' : r.sampled.map Sampled.key ++
            ({ r.ptq with onHeap := false } : Ptq).ahead s.pt = s.ahead i := hahead
        exact ⟨h.advance hl hi hahead' (fun x hx => (hsampled x hx).1)
          (fun x hx => (hsampled x hx).2) hran.suffix hheap (.inr ⟨rfl, hdry⟩),
          left_advance h hi hahead' hxs⟩

theorem Merging.mono (h : Merging pt n line limit s) {limit' : UInt64} (hle : limit ≤ limit') :
    Merging pt n line limit' s :=
  { h with early := fun x hx => UInt64.lt_of_lt_of_le (h.early x hx) hle }

theorem Merging.call (h : Merging pt n line limit s) (hl : Timelines n line)
    (hp : pt.timelessDecoding = false) (hmem : ∀ k, realloc k = true) {limit' : UInt64}
    (hle : limit ≤ limit') :
    ∃ s', Leaves (processPass realloc (fun _ => 0) limit') s (0, s') ∧
      Merging pt n line limit' s' ∧ ∀ i < n, ∀ y ∈ s'.ahead i, limit' ≤ y.2 := by
  obtain ⟨⟨ret, s'⟩, hleaves, hret, hmerge, hrest⟩ := exists_leaves IntelPt.left
    (fun s₁ (hs₁ : Merging pt n line limit' s₁) => hs₁.pass hl hp hmem) s (h.mono hle)
  obtain rfl : ret = 0 := hret
  exact ⟨s', hleaves, hmerge, hrest⟩

theorem Merging.calls (h : Merging pt n line limit s) (hl : Timelines n line)
    (hp : pt.timelessDecoding = false) (hmem : ∀ k, realloc k = true) {ts : List UInt64}
    {last : UInt64} (hts : (limit :: (ts ++ [last])).Pairwise (· ≤ ·)) :
    ∃ s', Processes realloc (fun _ => 0) (ts ++ [last]) s s' ∧
      Merging pt n line last s' ∧ ∀ i < n, ∀ y ∈ s'.ahead i, last ≤ y.2 := by
  induction ts generalizing limit s with
  | nil =>
    obtain ⟨s', hleaves, hs'⟩ := h.call hl hp hmem
      (List.rel_of_pairwise_cons hts List.mem_cons_self)
    exact ⟨s', ⟨s', hleaves, rfl⟩, hs'⟩
  | cons t ts ih =>
    obtain ⟨s₁, hleaves, hs₁, -⟩ := h.call hl hp hmem
      (List.rel_of_pairwise_cons hts List.mem_cons_self)
    obtain ⟨s', hproc, hs'⟩ := ih hs₁ hts.tail
    exact ⟨s', ⟨s₁, hleaves, hproc⟩, hs'⟩

theorem Merging.sampledOf_eq (h : Merging pt n line limit s)
    (hrest : ∀ i < n, ∀ y ∈ s.ahead i, limit ≤ y.2) (hi : i < n) :
    s.sampledOf i = (line i).filter (·.2 < limit) := by
  have hbefore : ∀ x ∈ s.sampledOf i, decide (x.2 < limit) = true := by
    intro x hx
    obtain ⟨y, hy, rfl⟩ := List.mem_map.mp hx
    exact decide_eq_true (h.early y (List.mem_of_mem_filter hy))
  have hafter : ∀ y ∈ s.ahead i, ¬ decide (y.2 < limit) = true := by
    intro y hy
    rw [decide_eq_true_eq, UInt64.not_lt]
    exact hrest i hi y hy
  rw [← h.split i hi, List.filter_append, List.filter_eq_self.mpr hbefore,
    List.filter_eq_nil_iff.mpr hafter, List.append_nil]

end

theorem gettingTimestamp_none {rest : List State} (h : gettingTimestamp outputs = (none, rest))
    (hno : ∀ state ∈ outputs, state.err ≠ some .nodata) :
    rest = [] ∧ ∀ a ∈ errorFree outputs, a.timestamp = 0 := by
  induction outputs with
  | nil =>
    rw [gettingTimestamp] at h
    exact ⟨(Prod.mk.inj h).2.symm, by simp⟩
  | cons a l ih =>
    have hno' : ∀ state ∈ l, state.err ≠ some .nodata :=
      fun state hs => hno state (List.mem_cons_of_mem a hs)
    rw [gettingTimestamp] at h
    split at h
    · next he => exact absurd he (hno a List.mem_cons_self)
    · next he =>
      rw [errorFree_cons_of_some he]
      exact ih h hno'
    · next he =>
      split at h
      · next h0 =>
        obtain ⟨hrest, hz⟩ := ih h hno'
        rw [errorFree_cons_of_none he, List.forall_mem_cons]
        exact ⟨hrest, h0, hz⟩
      · exact absurd (Prod.mk.inj h).1 (by simp)

theorem setup_timeline (pt : Pt) (hno : ∀ state ∈ outputs, state.err ≠ some .nodata)
    (hnz : ∀ state ∈ errorFree outputs, state.timestamp ≠ 0) :
    (Ptq.new outputs).setup.ahead pt = pt.timeline (errorFree outputs) ∧
      (Ptq.new outputs).setup.outputs <:+ outputs ∧
      ((Ptq.new outputs).setup.onHeap = true ∧ (Ptq.new outputs).setup.haveSample = true ∨
        (Ptq.new outputs).setup.onHeap = false ∧ (Ptq.new outputs).setup.ahead pt = []) := by
  have hout : (Ptq.new outputs).outputs = outputs := rfl
  unfold Ptq.setup
  rw [hout]
  rcases hg : gettingTimestamp outputs with ⟨_ | state, rest⟩
  · obtain ⟨rfl, hz⟩ := gettingTimestamp_none hg hno
    have hnone : errorFree outputs = [] :=
      List.eq_nil_iff_forall_not_mem.mpr fun a ha => hnz a ha (hz a ha)
    rw [hnone]
    exact ⟨rfl, List.nil_suffix, .inr ⟨rfl, rfl⟩⟩
  · obtain ⟨he, -, skipped, rfl, hz⟩ := gettingTimestamp_spec hg
    have hsplit : errorFree (skipped ++ state :: rest) =
        errorFree skipped ++ errorFree (state :: rest) := List.filter_append ..
    have hnone : errorFree skipped = [] := by
      apply List.eq_nil_iff_forall_not_mem.mpr
      intro a ha
      apply hnz a _ (hz a ha)
      rw [hsplit]
      exact List.mem_append_left _ ha
    rw [hsplit, hnone, List.nil_append, errorFree_cons_of_none he]
    refine ⟨rfl, ?_, .inl ⟨rfl, rfl⟩⟩
    exact (List.suffix_cons state rest).trans (List.suffix_append skipped _)

structure SettingUp (start : IntelPt) (todo : List ℕ) (s : IntelPt) : Prop where
  pt : s.pt = start.pt
  nrQueues : s.nrQueues = start.nrQueues
  sampled : s.sampled = []
  heap : s.heap.Holds s.onHeap fun i => (s.queues i).timestamp
  fresh : ∀ i ∈ todo, s.queues i = start.queues i
  done : ∀ i < start.nrQueues, i ∉ todo → s.ahead i = start.timeline i ∧
    (s.queues i).outputs <:+ (start.queues i).outputs ∧
    ((s.queues i).onHeap = true ∧ (s.queues i).haveSample = true ∨
      (s.queues i).onHeap = false ∧ s.ahead i = [])

theorem SettingUp.advance {i : ℕ} (h : SettingUp start (i :: todo) s) (hnd : i ∉ todo)
    {heap : AuxtraceHeap} (hheap : heap.Holds (s.advance i q heap []).onHeap
      fun j => ((s.advance i q heap []).queues j).timestamp)
    (hq : q.ahead s.pt = start.timeline i ∧ q.outputs <:+ (start.queues i).outputs ∧
      (q.onHeap = true ∧ q.haveSample = true ∨ q.onHeap = false ∧ q.ahead s.pt = [])) :
    SettingUp start todo (s.advance i q heap []) := by
  constructor
  case pt => exact h.pt
  case nrQueues => exact h.nrQueues
  case sampled => simp [IntelPt.advance, h.sampled]
  case heap => exact hheap
  case fresh =>
    intro j hj
    rw [queues_advance, if_neg (ne_of_mem_of_not_mem hj hnd)]
    exact h.fresh j (List.mem_cons_of_mem i hj)
  case done =>
    intro j hj hjt
    rw [queues_advance, ahead_advance]
    split_ifs with hji
    · exact hji ▸ hq
    · apply h.done j hj
      rw [List.mem_cons]
      exact not_or.mpr ⟨hji, hjt⟩

theorem SettingUp.step {i : ℕ} (h : SettingUp start (i :: todo) s) (hs : start.Start)
    (hi : i < start.nrQueues) (hnd : i ∉ todo) {realloc : ℕ → Bool} (hmem : ∀ k, realloc k = true) :
    (setupQueue realloc i s).1 = 0 ∧ SettingUp start todo (setupQueue realloc i s).2 := by
  have hnew : s.queues i = Ptq.new (start.queues i).outputs :=
    (h.fresh i List.mem_cons_self).trans (hs.queues i hi)
  have hoff : i ∉ s.onHeap := by
    rw [mem_onHeap, hnew]
    simp [Ptq.new]
  have hin : i < s.nrQueues := h.nrQueues ▸ hi
  have htimed : s.pt.timelessDecoding = false := h.pt ▸ hs.timed
  have hq := setup_timeline s.pt (hs.nodata i hi) (hs.nonzero i hi)
  rw [← hnew] at hq
  have hskip : ¬ ((s.queues i).onHeap || s.pt.timelessDecoding) = true := by
    rw [hnew, htimed]
    simp [Ptq.new]
  simp only [setupQueue]
  rw [if_neg hskip]
  have hadv : ∀ q heap, ({ s with queues := update s.queues i q, heap := heap } : IntelPt) =
      s.advance i q heap [] := by
    simp [IntelPt.advance]
  have hline : s.pt.timeline (errorFree (start.queues i).outputs) = start.timeline i := by
    rw [h.pt, IntelPt.timeline]
  rw [hline] at hq
  generalize (s.queues i).setup = q at hq ⊢
  cases hon : q.onHeap with
  | true =>
    obtain ⟨hadded, hholds⟩ := h.heap.add hmem hoff q.timestamp
    generalize s.heap.add realloc i q.timestamp = added at hadded hholds ⊢
    obtain ⟨ret, heap⟩ := added
    obtain rfl : ret = 0 := hadded
    simp only [if_true, ne_eq, not_true_eq_false, if_false, hadv]
    refine ⟨trivial, h.advance hnd ?_ hq⟩
    have hset : (s.advance i q heap []).onHeap = insert i s.onHeap := by
      ext j
      rw [mem_onHeap, queues_advance, Finset.mem_insert, mem_onHeap]
      split_ifs with hji
      · simp [hji, hon, hin, IntelPt.advance]
      · simp [hji, IntelPt.advance]
    rw [hset]
    apply hholds.congr
    intro j _
    rw [queues_advance, update_apply]
    split_ifs <;> rfl
  | false =>
    simp only [Bool.false_eq_true, if_false]
    refine ⟨trivial, ?_⟩
    have hheap : s.heap.Holds (s.advance i q s.heap []).onHeap
        fun j => ((s.advance i q s.heap []).queues j).timestamp := by
      have hset : (s.advance i q s.heap []).onHeap = s.onHeap := by
        ext j
        rw [mem_onHeap, queues_advance, mem_onHeap]
        split_ifs with hji
        · simp [hji, hon, hnew, Ptq.new]
        · rfl
      rw [hset]
      apply h.heap.congr
      intro j hj
      rw [queues_advance, if_neg (ne_of_mem_of_not_mem hj hoff)]
    exact hadv q s.heap ▸ h.advance hnd hheap hq

theorem SettingUp.steps (h : SettingUp start todo s) (hs : start.Start)
    (htodo : ∀ i ∈ todo, i < start.nrQueues) (hnd : todo.Nodup) {realloc : ℕ → Bool}
    (hmem : ∀ k, realloc k = true) :
    ∃ s', setupEach realloc todo s = (0, s') ∧ SettingUp start [] s' := by
  induction todo generalizing s with
  | nil => exact ⟨s, rfl, h⟩
  | cons i todo ih =>
    rw [List.forall_mem_cons] at htodo
    obtain ⟨hnot, hnd⟩ := List.nodup_cons.mp hnd
    obtain ⟨hret, hnext⟩ := h.step hs htodo.1 hnot hmem
    obtain ⟨s', heach, hdone⟩ := ih hnext htodo.2 hnd
    refine ⟨s', ?_, hdone⟩
    rw [setupEach]
    generalize setupQueue realloc i s = r at hret heach ⊢
    obtain ⟨ret, s₁⟩ := r
    obtain rfl : ret = 0 := hret
    exact heach

theorem IntelPt.Start.settingUp (hs : s.Start) : SettingUp s (List.range s.nrQueues) s := by
  have hnone : s.onHeap = ∅ := by
    apply Finset.eq_empty_of_forall_notMem
    intro i hi
    obtain ⟨hin, hon⟩ := mem_onHeap.mp hi
    rw [hs.queues i hin] at hon
    cases hon
  refine ⟨rfl, rfl, hs.sampled, ?_, fun _ _ => rfl, ?_⟩
  · rw [hnone, hs.heap]
    exact AuxtraceHeap.holds_empty
  · intro i hi hnot
    exact absurd (List.mem_range.mpr hi) hnot

/-- Once all queues are set up the merge can begin. -/
theorem SettingUp.merging (h : SettingUp start [] s) (hs : start.Start) :
    Merging start.pt start.nrQueues start.timeline 0 s := by
  have hdone := fun i hi => h.done i hi List.not_mem_nil
  constructor
  case pt => exact h.pt
  case nrQueues => exact h.nrQueues
  case heap => exact h.heap
  case waits =>
    intro i hi
    obtain ⟨hin, hon⟩ := mem_onHeap.mp hi
    rcases (hdone i (h.nrQueues ▸ hin)).2.2 with ⟨-, hhave⟩ | ⟨hoff, -⟩
    · exact hhave
    · rw [hoff] at hon
      cases hon
  case dry =>
    intro i hi hoff
    rcases (hdone i hi).2.2 with ⟨hon, -⟩ | ⟨-, hdry⟩
    · rw [hon] at hoff
      cases hoff
    · exact hdry
  case nodata =>
    intro i hi state hstate
    exact hs.nodata i hi state ((hdone i hi).2.1.subset hstate)
  case split =>
    intro i hi
    rw [IntelPt.sampledOf, h.sampled]
    exact (hdone i hi).1
  case ordered => simp [h.sampled]
  case below => simp [h.sampled]
  case early => simp [h.sampled]

theorem stamps_fst (pt : Pt) (t : UInt64) (l : List State) : (pt.stamps t l).map Prod.fst = l := by
  induction l generalizing t with
  | nil => rfl
  | cons state rest ih => simp [Pt.stamps, ih]

theorem timeline_fst (pt : Pt) (l : List State) : (pt.timeline l).map Prod.fst = l := by
  cases l with
  | nil => rfl
  | cons state rest => simp [Pt.timeline, stamps_fst]

/-- Processing the queues merges their timelines. -/
theorem processes_merge {s : IntelPt} (hs : s.Start) (hl : Timelines s.nrQueues s.timeline)
    {realloc : ℕ → Bool} (hmem : ∀ k, realloc k = true) :
    ∃ s₀, setupQueues realloc s = (0, s₀) ∧
      ∀ ts last, (ts ++ [last]).Pairwise (· ≤ ·) →
        ∃ s₁, Processes realloc (fun _ => 0) (ts ++ [last]) s₀ s₁ ∧
          (s₁.sampled.Pairwise fun a b => a.2.timestamp ≤ b.2.timestamp) ∧
          (∀ i < s.nrQueues, s₁.sampledOf i = (s.timeline i).filter (·.2 < last)) ∧
          (last = 0xffffffffffffffff → ∀ i < s.nrQueues,
            (s₁.sampledOf i).map Prod.fst = errorFree (s.queues i).outputs) := by
  obtain ⟨s₀, hset, hup⟩ := hs.settingUp.steps hs (fun i => List.mem_range.mp)
    List.nodup_range hmem
  refine ⟨s₀, hset, ?_⟩
  intro ts last hts
  have hts' : (0 :: (ts ++ [last])).Pairwise (· ≤ ·) := hts.cons fun t _ => UInt64.zero_le
  obtain ⟨s₁, hproc, hmerge, hrest⟩ := (hup.merging hs).calls hl hs.timed hmem hts'
  have hof := fun i hi => hmerge.sampledOf_eq hrest (i := i) hi
  refine ⟨s₁, hproc, hmerge.ordered, hof, ?_⟩
  rintro rfl i hi
  have hall : (s.timeline i).filter (·.2 < 0xffffffffffffffff) = s.timeline i :=
    List.filter_eq_self.mpr fun x hx => decide_eq_true (hl.below_max i hi x hx)
  rw [hof i hi, hall]
  exact timeline_fst s.pt _

def demoQueues : IntelPt where
  pt := {}
  nrQueues := 2
  queues := fun i =>
    if i = 0 then Ptq.new [{ timestamp := 10 }, { err := some .ovr }, { timestamp := 30 }]
    else Ptq.new [{ timestamp := 10 }, { timestamp := 20 }, { timestamp := 30 }]

theorem demoQueues_merge :
    ∃ s₀, setupQueues (fun _ => true) demoQueues = (0, s₀) ∧
      ∃ s₁, Processes (fun _ => true) (fun _ => 0) [15, 0xffffffffffffffff] s₀ s₁ ∧
        (s₁.sampled.Pairwise fun a b => a.2.timestamp ≤ b.2.timestamp) ∧
        ∀ i < 2, (s₁.sampledOf i).map Prod.fst = errorFree (demoQueues.queues i).outputs := by
  have hs : demoQueues.Start := ⟨rfl, rfl, rfl, by decide, by decide, by decide⟩
  have hl : Timelines demoQueues.nrQueues demoQueues.timeline := ⟨by decide, by decide⟩
  obtain ⟨s₀, hset, hcalls⟩ := processes_merge hs hl fun _ => rfl
  obtain ⟨s₁, hproc, hord, -, hall⟩ := hcalls [15] 0xffffffffffffffff (by decide)
  exact ⟨s₀, hset, s₁, hproc, hord, hall rfl⟩

end RPerf.Queues
