import RPerf.Queues.Switch

/-!
# The queues on the heap

`on_heap` of a queue is kept by hand: where a queue is set up, where it has been run, and
where a switch event resumes it.
-/

namespace RPerf.Queues

open Function Lib Decode

structure SwitchPtq.Stays (q q' : SwitchPtq) : Prop where
  onHeap : q'.onHeap = q.onHeap
  queueNr : q'.queueNr = q.queueNr

theorem SwitchPtq.Stays.trans {q q' q'' : SwitchPtq} (h : q.Stays q') (h' : q'.Stays q'') :
    q.Stays q'' :=
  ⟨h'.onHeap.trans h.onHeap, h'.queueNr.trans h.queueNr⟩

section

variable (cfg : SwitchConfig) (pt : Pt) (queue : SwitchQueue)

theorem SwitchPtq.stays_setPidTidCpu (machine : Machine) (q : SwitchPtq) :
    q.Stays (q.setPidTidCpu cfg machine queue) := by
  constructor <;> simp

variable (r : Running)

theorem Running.stays_nextTid : r.ptq.Stays (r.nextTid cfg queue).2.ptq := by
  constructor <;> simp

theorem Running.stays_switch : r.ptq.Stays (r.switch cfg queue).2.ptq := by
  have hnext := r.stays_nextTid cfg queue
  unfold Running.switch
  dsimp only
  split
  · split
    · split
      · exact hnext
      · exact ⟨hnext.onHeap, hnext.queueNr⟩
    · split
      · exact hnext
      · exact ⟨hnext.onHeap, hnext.queueNr⟩
    · exact ⟨rfl, rfl⟩
  · split_ifs <;> exact ⟨rfl, rfl⟩

theorem Running.stays_sample : r.ptq.Stays (r.sample cfg pt queue).2.1.ptq := by
  have hspec := sample_spec pt (cfg.deliver r.ptq.queueNr) r.ptq.toPtq
  unfold Running.sample
  generalize Queues.sample pt (cfg.deliver r.ptq.queueNr) r.ptq.toPtq = out at hspec ⊢
  obtain ⟨err, q, xs⟩ := out
  have htaken : r.ptq.Stays { r.ptq with toPtq := q } := ⟨hspec.onHeap, rfl⟩
  dsimp only
  split
  · exact htaken
  · split
    · exact htaken.trans (Running.stays_switch cfg queue
        { r with ptq := { r.ptq with toPtq := q } })
    · exact htaken

theorem Running.stays_failed (state : State) : r.ptq.Stays (r.failed cfg pt queue state).ptq := by
  unfold Running.failed
  split
  · exact Running.stays_nextTid cfg queue { r with syncSwitch := false }
  · exact ⟨rfl, rfl⟩

theorem Running.stays_decoded (rest : List State) (ranDry : Bool) :
    r.ptq.Stays (r.decoded rest ranDry).ptq :=
  ⟨rfl, rfl⟩

theorem Running.stays_arrived (state : State) : r.ptq.Stays (r.arrived cfg pt state).ptq :=
  ⟨rfl, rfl⟩

theorem Running.stays_counted : r.ptq.Stays r.counted.ptq :=
  ⟨rfl, rfl⟩

end

section

variable {cfg : SwitchConfig} {pt : Pt} {queue : SwitchQueue} {timestamp : UInt64}

theorem SwitchRuns.stays {outputs : List State} {r : Running} {out : SwitchRun}
    (h : SwitchRuns cfg pt queue timestamp outputs r out) : r.ptq.Stays out.running.ptq := by
  have hsample {r r' : Running} {err : Int} {xs : List Delivered}
      (hs : r.sample cfg pt queue = (err, r', xs)) : r.ptq.Stays r'.ptq := by
    have hstays := r.stays_sample cfg pt queue
    rwa [hs] at hstays
  have hfailed {r r' : Running} {rest : List State} {state : State} (hs : r.ptq.Stays r'.ptq) :
      r.ptq.Stays ((r'.decoded rest false).failed cfg pt queue state).ptq :=
    (hs.trans (r'.stays_decoded rest false)).trans
      ((r'.decoded rest false).stays_failed cfg pt queue state)
  induction h with
  | stopped hs _ => exact (hsample hs).trans (Running.stays_decoded ..)
  | dry hs => exact (hsample hs).trans (Running.stays_decoded ..)
  | nodata hs _ => exact (hsample hs).trans (Running.stays_decoded ..)
  | lost hs _ hr₁ =>
    subst hr₁
    exact (hfailed (hsample hs)).trans (Running.stays_counted _)
  | error hs _ _ hr₁ _ ih =>
    refine SwitchPtq.Stays.trans ?_ ih
    rcases hr₁ with rfl | rfl
    · exact hfailed (hsample hs)
    · exact (hfailed (hsample hs)).trans (Running.stays_counted _)
  | reached hs _ hr₁ =>
    subst hr₁
    exact ((hsample hs).trans (Running.stays_decoded ..)).trans (Running.stays_arrived ..)
  | next hs _ _ ih =>
    exact (((hsample hs).trans (Running.stays_decoded ..)).trans (Running.stays_arrived ..)).trans
      ih

theorem runSwitch_stays (r : Running) :
    r.ptq.Stays (runSwitch cfg pt queue timestamp r).running.ptq :=
  (SwitchPtq.stays_setPidTidCpu cfg queue r.machine r.ptq).trans
    (switchLoop_runs cfg pt queue timestamp r.ptq.outputs
      { r with ptq := r.ptq.setPidTidCpu cfg r.machine queue }).stays

end

/-- The queues with `on_heap`. -/
def members (queues : AuxtraceQueues (List State) SwitchPtq) : Finset ℕ :=
  (Finset.range queues.nrQueues.toNat).filter fun i => (queues.queueArray i).priv.any (·.onHeap)

/-- The numbers on the heap. -/
def AuxtraceHeap.numbers (heap : AuxtraceHeap) : List ℕ :=
  (List.range heap.heapCnt).map fun k => (heap.heapArray k).queueNr

/-- Each queue has its number, and the heap holds the queues with `on_heap`, under times that are
`ok`. -/
structure Exact (ok : UInt64 → Prop) (queues : AuxtraceQueues (List State) SwitchPtq)
    (heap : AuxtraceHeap) : Prop where
  numbered : ∀ i q, (queues.queueArray i).priv = some q → q.queueNr = i ∧ i < queues.nrQueues.toNat
  holds : ∃ ordinal, heap.Holds (members queues) ordinal ∧ ∀ i ∈ members queues, ok (ordinal i)

section

variable {ok : UInt64 → Prop} {queues : AuxtraceQueues (List State) SwitchPtq}
  {heap : AuxtraceHeap} {i : ℕ} {q : SwitchPtq} {realloc : ℕ → Bool}

theorem mem_members : i ∈ members queues ↔
    i < queues.nrQueues.toNat ∧ ∃ q, (queues.queueArray i).priv = some q ∧ q.onHeap = true := by
  simp [members, Option.any_eq_true]

theorem Exact.mem_members (h : Exact ok queues heap) (hq : (queues.queueArray i).priv = some q) :
    i ∈ members queues ↔ q.onHeap = true := by
  rw [Queues.mem_members]
  constructor
  · rintro ⟨-, q', hq', hon⟩
    rw [hq] at hq'
    cases hq'
    exact hon
  · exact fun hon => ⟨(h.numbered i q hq).2, q, hq, hon⟩

theorem members_attach (hi : i < queues.nrQueues.toNat) :
    members (queues.attach i q) =
      if q.onHeap then insert i (members queues) else (members queues).erase i := by
  ext j
  rw [mem_members]
  by_cases hj : j = i
  · subst hj
    cases hq : q.onHeap <;> simp [AuxtraceQueues.attach, hq, hi]
  · cases hq : q.onHeap <;> simp [AuxtraceQueues.attach, hj, mem_members]

theorem Exact.numbered_attach (h : Exact ok queues heap) (hi : i < queues.nrQueues.toNat)
    (hnr : q.queueNr = i) (j : ℕ) (q' : SwitchPtq)
    (hq' : ((queues.attach i q).queueArray j).priv = some q') :
    q'.queueNr = j ∧ j < (queues.attach i q).nrQueues.toNat := by
  by_cases hj : j = i
  · subst hj
    simp only [AuxtraceQueues.attach, update_self, Option.some.injEq] at hq'
    exact ⟨hq' ▸ hnr, hi⟩
  · simp only [AuxtraceQueues.attach, update_of_ne hj] at hq'
    exact h.numbered j q' hq'

theorem Exact.attach (h : Exact ok queues heap) (hi : i < queues.nrQueues.toNat)
    (hnr : q.queueNr = i) (hon : q.onHeap = true ↔ i ∈ members queues) :
    Exact ok (queues.attach i q) heap := by
  constructor
  · exact h.numbered_attach hi hnr
  · have hsame : members (queues.attach i q) = members queues := by
      rw [members_attach hi]
      split
      · next hq => exact Finset.insert_eq_of_mem (hon.mp hq)
      · next hq => exact Finset.erase_eq_of_notMem fun hmem => hq (hon.mpr hmem)
    rw [hsame]
    exact h.holds

theorem ok_update {set : Finset ℕ} {ordinal : ℕ → UInt64} (hok : ∀ j ∈ set, ok (ordinal j))
    {t : UInt64} (ht : ok t) (j : ℕ) (hj : j ∈ insert i set) : ok (update ordinal i t j) := by
  by_cases heq : j = i
  · rw [heq, update_self]
    exact ht
  · rw [update_of_ne heq]
    exact hok j (Finset.mem_of_mem_insert_of_ne hj heq)

theorem Exact.attach_add (h : Exact ok queues heap) (hi : i < queues.nrQueues.toNat)
    (hnr : q.queueNr = i) (hoff : i ∉ members queues) (hon : q.onHeap = true)
    (hmem : ∀ n, realloc n = true) {t : UInt64} (ht : ok t) :
    (heap.add realloc i t).1 = 0 ∧ Exact ok (queues.attach i q) (heap.add realloc i t).2 := by
  obtain ⟨ordinal, hholds, hok⟩ := h.holds
  obtain ⟨hret, hadded⟩ := hholds.add hmem hoff t
  refine ⟨hret, h.numbered_attach hi hnr, update ordinal i t, ?_⟩
  rw [members_attach hi, if_pos hon]
  exact ⟨hadded, ok_update hok ht⟩

theorem Exact.pop (h : Exact ok queues heap) (h0 : heap.heapCnt ≠ 0)
    (hi : (heap.heapArray 0).queueNr = i) (hmem : ∀ n, realloc n = true) :
    i ∈ members queues ∧ ok (heap.heapArray 0).ordinal ∧ ∀ q', q'.queueNr = i →
      (q'.onHeap = false → Exact ok (queues.attach i q') heap.pop) ∧
      (q'.onHeap = true → ∀ t, ok t →
        Exact ok (queues.attach i q') (heap.pop.add realloc i t).2) := by
  obtain ⟨ordinal, hholds, hok⟩ := h.holds
  obtain ⟨j, hj, hroot, -, hpop⟩ := hholds.pop h0
  rw [hroot] at hi ⊢
  obtain rfl : j = i := hi
  have hlt : j < queues.nrQueues.toNat := (Queues.mem_members.mp hj).1
  have hrest (k : ℕ) (hk : k ∈ (members queues).erase j) : ok (ordinal k) :=
    hok k (Finset.mem_of_mem_erase hk)
  refine ⟨hj, hok j hj, fun q' hnr => ⟨fun hoff => ?_, fun hon t ht => ?_⟩⟩
  · refine ⟨h.numbered_attach hlt hnr, ordinal, ?_⟩
    rw [members_attach hlt, if_neg (by rw [hoff]; exact Bool.false_ne_true)]
    exact ⟨hpop, hrest⟩
  · refine ⟨h.numbered_attach hlt hnr, update ordinal j t, ?_⟩
    have hadded := (hpop.add hmem (Finset.notMem_erase j _) t).2
    rw [members_attach hlt, if_pos hon, Finset.insert_eq_of_mem hj, ← Finset.insert_erase hj]
    exact ⟨hadded, ok_update hrest ht⟩

theorem Exact.congr {queues' : AuxtraceQueues (List State) SwitchPtq} (h : Exact ok queues heap)
    (hnr : queues.nrQueues ≤ queues'.nrQueues)
    (hpriv : ∀ i, (queues'.queueArray i).priv = (queues.queueArray i).priv) :
    Exact ok queues' heap := by
  have hle : queues.nrQueues.toNat ≤ queues'.nrQueues.toNat := UInt32.le_iff_toNat_le.mp hnr
  have hmembers : members queues' = members queues := by
    ext i
    rw [Queues.mem_members, Queues.mem_members, hpriv]
    constructor
    · rintro ⟨-, q, hq, hon⟩
      exact ⟨(h.numbered i q hq).2, q, hq, hon⟩
    · rintro ⟨hi, hq⟩
      exact ⟨hi.trans_le hle, hq⟩
  constructor
  · intro i q hq
    obtain ⟨hnr, hi⟩ := h.numbered i q ((hpriv i).symm.trans hq)
    exact ⟨hnr, hi.trans_le hle⟩
  · rw [hmembers]
    exact h.holds

end

namespace SwitchPt

section

variable {cfg : SwitchConfig} {s : SwitchPt} {i : ℕ} {ok : UInt64 → Prop}

theorem attach_attach (queues : AuxtraceQueues (List State) SwitchPtq) (i : ℕ) (q q' : SwitchPtq) :
    (queues.attach i q).attach i q' = queues.attach i q' := by
  simp [AuxtraceQueues.attach]

theorem enter_queues (s : SwitchPt) : (s.enter cfg).queues = s.queues := by
  unfold enter
  split <;> rfl

theorem enter_heap (s : SwitchPt) : (s.enter cfg).heap = s.heap := by
  unfold enter
  split <;> rfl

section

variable (cfg : SwitchConfig)

theorem runs_queues (s : SwitchPt) (i : ℕ) (q : SwitchPtq) (timestamp : UInt64) :
    (s.runs cfg i q timestamp).2.queues =
      s.queues.attach i (s.runs cfg i q timestamp).1.running.ptq := by
  simp only [runs, store, enter_queues]

theorem runs_heap (s : SwitchPt) (i : ℕ) (q : SwitchPtq) (timestamp : UInt64) :
    (s.runs cfg i q timestamp).2.heap = s.heap := by
  simp only [runs, store, enter_heap]

theorem runs_stays (s : SwitchPt) (i : ℕ) (q : SwitchPtq) (timestamp : UInt64) :
    q.Stays (s.runs cfg i q timestamp).1.running.ptq := by
  simp only [runs]
  exact runSwitch_stays ⟨(s.enter cfg).syncSwitch, (s.enter cfg).machine, q⟩

theorem exact_getD (h : Exact ok s.queues s.heap) (i : ℕ) :
    ((s.ptq i).getD (newPtq (s.queue i) i)).queueNr = i ∧
      (((s.ptq i).getD (newPtq (s.queue i) i)).onHeap = true ↔ i ∈ members s.queues) := by
  rcases hq : s.ptq i with _ | q
  · refine ⟨rfl, iff_of_false (by simp [newPtq]) ?_⟩
    rw [mem_members]
    rintro ⟨-, q, hq', -⟩
    cases hq.symm.trans hq'
  · exact ⟨(h.numbered i q hq).1, (h.mem_members hq).symm⟩

variable (s : SwitchPt)

/-- The queue that `intel_pt_setup_queue` works on. -/
def taken (i : ℕ) : SwitchPtq := (s.ptq i).getD (newPtq (s.queue i) i)

/-- What `intel_pt_setup_queue` makes of a queue. -/
def setUp (q : SwitchPtq) : SwitchPtq :=
  if s.keeps q then q
  else
    match gettingTimestamp q.outputs with
    | (none, rest) => { q with outputs := rest, ranDry := true }
    | (some state, rest) => { q.stamped state rest with onHeap := true }

/-- The queues have the same buffers, and `sync_switch` is as it was. -/
structure Framed (s t : SwitchPt) : Prop where
  pt : t.pt = s.pt
  syncSwitch : t.syncSwitch = s.syncSwitch
  nrQueues : t.queues.nrQueues = s.queues.nrQueues
  head : ∀ i, (t.queue i).head = (s.queue i).head

theorem Framed.trans {s t u : SwitchPt} (h : Framed s t) (h' : Framed t u) : Framed s u where
  pt := h'.pt.trans h.pt
  syncSwitch := h'.syncSwitch.trans h.syncSwitch
  nrQueues := h'.nrQueues.trans h.nrQueues
  head i := (h'.head i).trans (h.head i)

theorem Framed.setUp {s t : SwitchPt} (h : Framed s t) (q : SwitchPtq) : t.setUp q = s.setUp q := by
  unfold SwitchPt.setUp keeps
  rw [h.pt, h.syncSwitch]

theorem head_store (i : ℕ) (q : SwitchPtq) (j : ℕ) :
    ((s.store i q).queue j).head = (s.queue j).head := by
  simp only [store, queue, AuxtraceQueues.attach]
  by_cases hj : j = i
  · rw [hj, update_self]
  · rw [update_of_ne hj]

theorem ptq_store (i : ℕ) (q : SwitchPtq) : (s.store i q).ptq i = some q := by
  simp [store, ptq, queue, AuxtraceQueues.attach]

theorem queue_store_of_ne {i j : ℕ} (q : SwitchPtq) (hj : j ≠ i) :
    (s.store i q).queue j = s.queue j := by
  simp [store, queue, AuxtraceQueues.attach, hj]

theorem setUp_framed (i : ℕ) : Framed s (s.setupQueue cfg i).2 ∧
    ∀ j ≠ i, (s.setupQueue cfg i).2.queue j = s.queue j := by
  have hset := setsUp_setupQueue cfg s i
  generalize s.setupQueue cfg i = r at hset ⊢
  cases hset with
  | empty => exact ⟨⟨rfl, rfl, rfl, fun _ => rfl⟩, fun _ _ => rfl⟩
  | kept | dry | failed | added =>
    exact ⟨⟨rfl, rfl, rfl, head_store s i _⟩, fun j hj => queue_store_of_ne s _ hj⟩

theorem setupEach_framed (todo : List ℕ) : Framed s (s.setupEach cfg todo).2 := by
  induction todo generalizing s with
  | nil => exact ⟨rfl, rfl, rfl, fun _ => rfl⟩
  | cons i rest ih =>
    have hframed := (setUp_framed cfg s i).1
    simp only [setupEach]
    split
    · exact hframed
    · exact hframed.trans (ih _)

end

theorem setupQueue_spec (hmem : ∀ n, cfg.realloc n = true) (h : Exact ok s.queues s.heap)
    (hi : i < s.queues.nrQueues.toNat)
    (hok : ∀ state rest, gettingTimestamp (s.taken i).outputs = (some state, rest) →
      ok state.timestamp) :
    (s.setupQueue cfg i).1 = 0 ∧
      Exact ok (s.setupQueue cfg i).2.queues (s.setupQueue cfg i).2.heap ∧
      (s.setupQueue cfg i).2.ptq i =
        if (s.queue i).head = [] then s.ptq i else some (s.setUp (s.taken i)) := by
  obtain ⟨hnr, hon⟩ := exact_getD h i
  have hset := setsUp_setupQueue cfg s i
  rw [← taken] at hnr hon hset
  unfold setUp
  generalize s.taken i = q at hnr hon hok hset ⊢
  have hadded {state : State} {rest : List State} (hkeeps : s.keeps q = false)
      (hsome : gettingTimestamp q.outputs = (some state, rest)) := by
    have hoff : i ∉ members s.queues := fun hin => by
      rw [keeps, hon.mpr hin] at hkeeps
      cases hkeeps
    exact h.attach_add (q := { q.stamped state rest with onHeap := true }) hi hnr hoff rfl hmem
      (hok state rest hsome)
  generalize s.setupQueue cfg i = r at hset ⊢
  cases hset with
  | empty hempty => exact ⟨rfl, h, (if_pos hempty).symm⟩
  | kept hne hkeeps =>
    rw [if_neg hne, if_pos hkeeps]
    exact ⟨rfl, h.attach hi hnr hon, ptq_store s i _⟩
  | dry hne hkeeps hnone =>
    rw [if_neg hne, if_neg (Bool.eq_false_iff.mp hkeeps), hnone]
    exact ⟨rfl, h.attach hi hnr hon, ptq_store s i _⟩
  | failed hne hkeeps hsome hadd hret =>
    have hzero := (hadded hkeeps hsome).1
    rw [hadd] at hzero
    exact absurd hzero hret
  | added hne hkeeps hsome hadd =>
    have hexact := (hadded hkeeps hsome).2
    rw [hadd] at hexact
    rw [if_neg hne, if_neg (Bool.eq_false_iff.mp hkeeps), hsome]
    exact ⟨rfl, hexact, ptq_store s i _⟩

theorem setupEach_spec (hmem : ∀ n, cfg.realloc n = true) (todo : List ℕ) (hnodup : todo.Nodup)
    (h : Exact ok s.queues s.heap) (hlt : ∀ i ∈ todo, i < s.queues.nrQueues.toNat)
    (hok : ∀ i ∈ todo, ∀ state rest, gettingTimestamp (s.taken i).outputs = (some state, rest) →
      ok state.timestamp) :
    (s.setupEach cfg todo).1 = 0 ∧
      Exact ok (s.setupEach cfg todo).2.queues (s.setupEach cfg todo).2.heap ∧
      ∀ i, (s.setupEach cfg todo).2.ptq i =
        if i ∉ todo ∨ (s.queue i).head = [] then s.ptq i else some (s.setUp (s.taken i)) := by
  induction todo generalizing s with
  | nil => exact ⟨rfl, h, fun i => by simp [setupEach]⟩
  | cons i rest ih =>
    obtain ⟨hnotin, hnodup⟩ := List.nodup_cons.mp hnodup
    obtain ⟨hret, hexact, hptq⟩ := setupQueue_spec hmem h (hlt i List.mem_cons_self)
      (hok i List.mem_cons_self)
    obtain ⟨hframed, hother⟩ := setUp_framed cfg s i
    have hsame (j : ℕ) (hj : j ≠ i) : (s.setupQueue cfg i).2.taken j = s.taken j := by
      simp only [taken, ptq, hother j hj]
    simp only [setupEach]
    rw [if_neg (not_not.mpr hret)]
    obtain ⟨hret', hexact', hptq'⟩ := ih hnodup hexact
      (fun j hj => by rw [hframed.nrQueues]; exact hlt j (List.mem_cons_of_mem i hj))
      (fun j hj => by
        rw [hsame j (ne_of_mem_of_not_mem hj hnotin)]
        exact hok j (List.mem_cons_of_mem i hj))
    refine ⟨hret', hexact', fun j => ?_⟩
    rw [hptq' j, hframed.head, hframed.setUp]
    by_cases hj : j = i
    · subst hj
      rw [if_pos (.inl hnotin), hptq]
      simp
    · rw [hsame j hj, ptq, hother j hj]
      simp [hj, ptq]

end

section

variable {cfg : SwitchConfig} {s : SwitchPt} {i : ℕ}

/-- The heap is exact. -/
def HeapExact (s : SwitchPt) : Prop := Exact (fun _ => True) s.queues s.heap

theorem HeapExact.setupQueue (h : s.HeapExact) (hmem : ∀ n, cfg.realloc n = true)
    (hi : i < s.queues.nrQueues.toNat) : (s.setupQueue cfg i).2.HeapExact :=
  (setupQueue_spec hmem h hi fun _ _ _ => trivial).2.1

theorem HeapExact.cleared (h : s.HeapExact) :
    { s with queues := { s.queues with newData := false } }.HeapExact := ⟨h.numbered, h.holds⟩

theorem HeapExact.updateQueues_spec (hmem : ∀ n, cfg.realloc n = true) (h : s.HeapExact) :
    (s.updateQueues cfg).1 = 0 ∧ (s.updateQueues cfg).2.HeapExact := by
  unfold SwitchPt.updateQueues
  split
  · obtain ⟨hzero, hexact, -⟩ := setupEach_spec hmem _ List.nodup_range h.cleared
      (fun i hi => List.mem_range.mp hi) fun _ _ _ _ _ => trivial
    exact ⟨hzero, hexact⟩
  · exact ⟨rfl, h⟩

theorem HeapExact.updateQueues (hmem : ∀ n, cfg.realloc n = true) (h : s.HeapExact) :
    (s.updateQueues cfg).2.HeapExact := (h.updateQueues_spec hmem).2

theorem HeapExact.runs (hmem : ∀ n, cfg.realloc n = true) (h : s.HeapExact)
    (h0 : s.heap.heapCnt ≠ 0) (hi : (s.heap.heapArray 0).queueNr = i) {q : SwitchPtq}
    (hq : s.ptq i = some q) {timestamp : UInt64} {out : SwitchRun} {s' : SwitchPt}
    (hrun : s.runs cfg i q timestamp = (out, s')) :
    Exact (fun _ => True) (s'.queues.attach i { out.running.ptq with onHeap := false })
        s.heap.pop ∧
      Exact (fun _ => True) s'.queues (s.heap.pop.add cfg.realloc i out.timestamp).2 := by
  obtain ⟨hin, -, hnext⟩ := Exact.pop h h0 hi hmem
  have hstays := runs_stays cfg s i q timestamp
  have hqueues := runs_queues cfg s i q timestamp
  rw [hrun] at hstays hqueues
  have hnr : out.running.ptq.queueNr = i := hstays.queueNr.trans (h.numbered i q hq).1
  rw [hqueues, attach_attach]
  exact ⟨(hnext { out.running.ptq with onHeap := false } hnr).1 rfl,
    (hnext _ hnr).2 (hstays.onHeap.trans ((Exact.mem_members h hq).mp hin)) _ trivial⟩

theorem HeapExact.pass (hmem : ∀ n, cfg.realloc n = true) (timestamp : UInt64) (h : s.HeapExact) :
    (s.pass cfg timestamp).Satisfies HeapExact fun r => r.2.HeapExact := by
  have hpasses := passes_pass cfg timestamp s
  generalize s.pass cfg timestamp = p at hpasses ⊢
  cases hpasses with
  | idle => exact h
  | missing => exact h
  | failed h0 hi hq hrun hadd herr =>
    have hback := (h.runs hmem h0 hi hq hrun).2
    rw [hadd] at hback
    exact hback
  | back h0 hi hq hrun hret hadd =>
    have hback := (h.runs hmem h0 hi hq hrun).2
    rw [hadd] at hback
    exact hback
  | off h0 hi hq hrun hret => exact (h.runs hmem h0 hi hq hrun).1

theorem HeapExact.runTimeless (tid : Int) (i : ℕ) (h : s.HeapExact) :
    (s.runTimeless cfg tid i).HeapExact := by
  unfold SwitchPt.runTimeless
  split
  · next q hq =>
    split
    · obtain ⟨hnr, hi⟩ := h.numbered i q hq
      have hstays := runs_stays cfg s i q 0
      unfold HeapExact
      rw [runs_queues, runs_heap]
      apply Exact.attach h hi (hstays.queueNr.trans hnr)
      rw [hstays.onHeap]
      exact (Exact.mem_members h hq).symm
    · exact h
  · exact h

theorem HeapExact.processTimelessQueues (tid : Int) (h : s.HeapExact) :
    (s.processTimelessQueues cfg tid).HeapExact := by
  unfold SwitchPt.processTimelessQueues
  generalize List.range s.queues.nrQueues.toNat = todo
  induction todo generalizing s with
  | nil => exact h
  | cons i rest ih => exact ih (h.runTimeless tid i)

theorem onSwitch_cases (tid : Int) (tsc : UInt64) (q : SwitchPtq) :
    (q.onSwitch tid tsc).2.queueNr = q.queueNr ∧
      ((q.onSwitch tid tsc).2.onHeap ≠ q.onHeap →
        q.onHeap = false ∧ (q.onSwitch tid tsc).2.onHeap = true) := by
  unfold SwitchPtq.onSwitch
  split
  · exact ⟨rfl, fun h => absurd rfl h⟩
  · exact ⟨rfl, fun h => absurd rfl h⟩
  · exact ⟨rfl, fun h => absurd rfl h⟩
  · split
    · exact ⟨rfl, fun h => absurd rfl h⟩
    · next hoff => exact ⟨rfl, fun _ => ⟨Bool.eq_false_iff.mpr hoff, rfl⟩⟩
  · exact ⟨rfl, fun h => absurd rfl h⟩

theorem HeapExact.syncSwitchTo (hmem : ∀ n, cfg.realloc n = true) (cpu tid : Int) (time : UInt64)
    (h : s.HeapExact) : (s.syncSwitchTo cfg cpu tid time).2.HeapExact := by
  unfold SwitchPt.syncSwitchTo
  split
  · exact h
  · split
    · exact h
    · next i q hfound =>
      obtain ⟨j, -, hj⟩ := Option.bind_eq_some_iff.mp hfound
      obtain ⟨q', hq, heq⟩ := Option.map_eq_some_iff.mp hj
      obtain ⟨rfl, rfl⟩ := Prod.mk.inj heq
      obtain ⟨hnr, hi⟩ := h.numbered j q' hq
      have hswitch := onSwitch_cases tid (perfTimeToTsc time s.pt.tc) q'
      generalize q'.onSwitch tid (perfTimeToTsc time s.pt.tc) = out at hswitch ⊢
      obtain ⟨ret, q''⟩ := out
      obtain ⟨hnr', hon⟩ := hswitch
      dsimp only at hnr' hon ⊢
      by_cases hsame : q''.onHeap = q'.onHeap
      · rw [if_pos hsame]
        apply Exact.attach h hi (hnr'.trans hnr)
        rw [hsame]
        exact (Exact.mem_members h hq).symm
      · obtain ⟨hoff, hon⟩ := hon hsame
        have hout : j ∉ members s.queues := by
          rw [Exact.mem_members h hq, hoff]
          exact Bool.false_ne_true
        obtain ⟨hret, hexact⟩ :=
          Exact.attach_add h hi (hnr'.trans hnr) hout hon hmem (t := q''.timestamp) trivial
        rw [if_neg hsame, hnr, if_neg (not_not.mpr hret)]
        exact hexact

theorem heapExact_preserved (hmem : ∀ n, cfg.realloc n = true) : Preserved cfg HeapExact where
  update _ := HeapExact.updateQueues hmem
  pass timestamp _ := HeapExact.pass hmem timestamp
  timeless tid _ _ := HeapExact.processTimelessQueues tid
  sync cpu tid time _ := HeapExact.syncSwitchTo hmem cpu tid time
  machine _ _ h := h

theorem priv_addBuffer {queues queues' : AuxtraceQueues (List State) SwitchPtq} {idx : UInt32}
    {buffer : AuxtraceBuffer (List State)} {e : Int}
    (hpriv : ∀ i q, (queues.queueArray i).priv = some q → i < queues.nrQueues.toNat)
    (hadd : queues.addBuffer idx buffer = some (e, queues')) :
    queues.nrQueues ≤ queues'.nrQueues ∧
      ∀ i, (queues'.queueArray i).priv = (queues.queueArray i).priv := by
  obtain ⟨q₁, hgrown, -, hq'⟩ := AuxtraceQueues.addBuffer_some hadd
  have hq₁ : queues.nrQueues ≤ q₁.nrQueues ∧
      ∀ i, (q₁.queueArray i).priv = (queues.queueArray i).priv := by
    cases hgrown with
    | same => exact ⟨UInt32.le_refl _, fun _ => rfl⟩
    | more hle =>
      refine ⟨hle, fun i => ?_⟩
      simp only [AuxtraceQueues.copied]
      split
      · rfl
      · next hlt =>
        rcases hq : (queues.queueArray i).priv with _ | q
        · rfl
        · exact absurd (hpriv i q hq) hlt
  rcases hq' with ⟨-, rfl⟩ | ⟨-, -, queue, htakes, rfl⟩
  · exact hq₁
  · refine ⟨hq₁.1, fun i => ?_⟩
    rw [← hq₁.2 i]
    simp only [AuxtraceQueues.accept]
    by_cases hi : i = idx.toNat
    · subst hi
      rw [update_self]
      cases htakes <;> rfl
    · rw [update_of_ne hi]

theorem HeapExact.feed (i : ℕ) (states : List State) (h : s.HeapExact) :
    (s.feed i states).HeapExact := by
  unfold SwitchPt.feed
  split
  · next q hq =>
    obtain ⟨hnr, hi⟩ := h.numbered i q hq
    exact Exact.attach h hi hnr (Exact.mem_members h hq).symm
  · exact h

theorem HeapExact.processAuxtraceEvent {idx : UInt32} {buffer : AuxtraceBuffer (List State)}
    {r : Int × SwitchPt} (hevent : s.processAuxtraceEvent cfg idx buffer = some r)
    (h : s.HeapExact) : r.2.HeapExact := by
  unfold SwitchPt.processAuxtraceEvent at hevent
  split_ifs at hevent with hskip
  · cases hevent
    exact h
  · obtain ⟨⟨err, queues⟩, hadd, rfl⟩ := Option.map_eq_some_iff.mp hevent
    obtain ⟨hnr, hpriv⟩ := priv_addBuffer (fun i q hq => (h.numbered i q hq).2) hadd
    have hadded : { s with queues := queues }.HeapExact := Exact.congr h hnr hpriv
    dsimp only
    split
    · exact hadded.feed idx.toNat buffer.data
    · exact hadded

end

inductive Reachable (cfg : SwitchConfig) : SwitchPt → Prop
  | start {s} (hpriv : ∀ i, s.ptq i = none) (hheap : s.heap = {})
    (hnew : ∀ i, (s.queue i).head ≠ [] → s.queues.newData = true) : Reachable cfg s
  | machine {s} (h : Reachable cfg s) (machine : Machine) :
    Reachable cfg { s with machine := machine }
  | event {s e r} (h : Reachable cfg s) (hevent : ProcessEvent cfg e s r) : Reachable cfg r.2
  | auxtrace {s idx buffer r} (h : Reachable cfg s)
    (hevent : s.processAuxtraceEvent cfg idx buffer = some r) : Reachable cfg r.2
  | flush {s r} (h : Reachable cfg s) (hflush : Flush cfg s r) : Reachable cfg r.2

/-- The states within a call in which no queue is being run. -/
inductive Moment (cfg : SwitchConfig) (s : SwitchPt) : SwitchPt → Prop
  | call : Moment cfg s s
  | update {t} (h : Moment cfg s t) :
    Moment cfg s { t with queues := { t.queues with newData := false } }
  | setup {t i} (h : Moment cfg s t) (hi : i < t.queues.nrQueues.toNat) :
    Moment cfg s (t.setupQueue cfg i).2
  | again {t t' timestamp} (h : Moment cfg s t) (hpass : t.pass cfg timestamp = .again t') :
    Moment cfg s t'
  | leave {t r timestamp} (h : Moment cfg s t) (hpass : t.pass cfg timestamp = .leave r) :
    Moment cfg s r.2
  | timeless {t tid i} (h : Moment cfg s t) : Moment cfg s (t.runTimeless cfg tid i)

section

variable {cfg : SwitchConfig} {s t : SwitchPt}

theorem heapExact_start (hpriv : ∀ i, s.ptq i = none) (hheap : s.heap = {}) : s.HeapExact := by
  constructor
  · exact fun i q hq => by cases (hpriv i).symm.trans hq
  · have hnone : members s.queues = ∅ := by
      apply Finset.eq_empty_of_forall_notMem
      intro i hi
      obtain ⟨-, q, hq, -⟩ := mem_members.mp hi
      cases (hpriv i).symm.trans hq
    rw [hnone, hheap]
    exact ⟨fun _ => 0, AuxtraceHeap.holds_empty, fun _ _ => trivial⟩

theorem Reachable.heapExact (h : Reachable cfg s) (hmem : ∀ n, cfg.realloc n = true) :
    s.HeapExact := by
  induction h with
  | start hpriv hheap => exact heapExact_start hpriv hheap
  | machine _ _ ih => exact ih
  | event _ hevent ih => exact (heapExact_preserved hmem).processEvent hevent ih
  | auxtrace _ hevent ih => exact ih.processAuxtraceEvent hevent
  | flush _ hflush ih => exact (heapExact_preserved hmem).flush hflush ih

theorem Moment.heapExact (h : Moment cfg s t) (hmem : ∀ n, cfg.realloc n = true)
    (hs : s.HeapExact) : t.HeapExact := by
  induction h with
  | call => exact hs
  | update _ ih => exact ⟨ih.numbered, ih.holds⟩
  | setup _ hi ih => exact ih.setupQueue hmem hi
  | @again t _ timestamp _ hpass ih =>
    have hexact := ih.pass hmem timestamp
    rwa [hpass] at hexact
  | @leave t _ timestamp _ hpass ih =>
    have hexact := ih.pass hmem timestamp
    rwa [hpass] at hexact
  | timeless _ ih => exact ih.runTimeless _ _

theorem coe_numbers {heap : AuxtraceHeap} {set : Finset ℕ} {ordinal : ℕ → UInt64}
    (h : heap.Holds set ordinal) : (heap.numbers : Multiset ℕ) = set.val := by
  have hcontents := congrArg (Multiset.map HeapItem.queueNr) h.contents
  rw [items, Multiset.map_map, Multiset.map_map] at hcontents
  exact hcontents.trans (Multiset.map_id _)

/-- An entry more has room. -/
theorem heapCnt_lt {heap : AuxtraceHeap} {set : Finset ℕ} {ordinal : ℕ → UInt64}
    (h : heap.Holds set ordinal) {realloc : ℕ → Bool} (hmem : ∀ n, realloc n = true) {i : ℕ}
    (hi : i ∉ set) (timestamp : UInt64) :
    heap.heapCnt < (heap.add realloc i timestamp).2.heapSz := by
  have hadded := (h.add hmem hi timestamp).2
  have hcnt := hadded.heapCnt_eq
  have hle := hadded.heapCnt_le
  rw [Finset.card_insert_of_notMem hi, ← h.heapCnt_eq] at hcnt
  omega

/-- Whatever calls have come, the heap has the queues with `on_heap`, each once. -/
theorem heap_members_exact (hmem : ∀ n, cfg.realloc n = true) (h : Reachable cfg s)
    (hmoment : Moment cfg s t) :
    t.heap.numbers.Nodup ∧
      (∀ i, i ∈ t.heap.numbers ↔ ∃ q, t.ptq i = some q ∧ q.onHeap = true) ∧
      t.heap.heapCnt ≤ t.heap.heapSz ∧
      (∀ i timestamp, (∀ q, t.ptq i = some q → q.onHeap = false) →
        t.heap.heapCnt < (t.heap.add cfg.realloc i timestamp).2.heapSz) ∧
      (t.heap.heapCnt ≠ 0 → ∀ timestamp, t.heap.pop.heapCnt <
        (t.heap.pop.add cfg.realloc (t.heap.heapArray 0).queueNr timestamp).2.heapSz) := by
  have hexact := hmoment.heapExact hmem (h.heapExact hmem)
  obtain ⟨ordinal, hholds, -⟩ := hexact.holds
  have hnumbers := coe_numbers hholds
  have hin (i : ℕ) : i ∈ t.heap.numbers ↔ i ∈ members t.queues := by
    rw [← Multiset.mem_coe, hnumbers, Finset.mem_val]
  refine ⟨?_, ?_, hholds.heapCnt_le, ?_, ?_⟩
  · rw [← Multiset.coe_nodup, hnumbers]
    exact (members t.queues).nodup
  · intro i
    rw [hin, mem_members]
    constructor
    · exact And.right
    · rintro ⟨q, hq, hon⟩
      exact ⟨(hexact.numbered i q hq).2, q, hq, hon⟩
  · intro i timestamp hoff
    apply heapCnt_lt hholds hmem
    intro hi
    obtain ⟨-, q, hq, hon⟩ := mem_members.mp hi
    rw [hoff q hq] at hon
    exact Bool.false_ne_true hon
  · intro h0 timestamp
    obtain ⟨i, -, hroot, -, hpop⟩ := hholds.pop h0
    rw [hroot]
    exact heapCnt_lt hpop hmem (Finset.notMem_erase i _) timestamp

end

def afterPass (cfg : SwitchConfig) (timestamp : UInt64) (t : SwitchPt) : SwitchPt :=
  match t.pass cfg timestamp with
  | .again t' => t'
  | .leave r => r.2

theorem Moment.afterPass {cfg : SwitchConfig} {s t : SwitchPt} (h : Moment cfg s t)
    (timestamp : UInt64) : Moment cfg s (t.afterPass cfg timestamp) := by
  rw [SwitchPt.afterPass]
  cases hpass : t.pass cfg timestamp with
  | again t' => exact h.again hpass
  | leave r => exact h.leave hpass

def twoStates : SwitchPt where
  pt := { kernelStart := 0x8000000000000000 }
  syncSwitch := true
  queues := {
    queueArray := update (update (fun _ => {})
      1 { head := [⟨[{ type := { branch := true }, timestamp := 5, fromIp := 16, toIp := 64,
                       insnOp := .call }], -1, 0, 0⟩] })
      2 { head := [⟨[{ timestamp := 9 }], -1, 1, 0⟩] }
    newData := true }

def switchesAt64 : SwitchConfig := { switchIp := 64 }

/-- Both queues are set up, and the first one has been run. -/
def oneParked : SwitchPt :=
  ((twoStates.setupQueue switchesAt64 1).2.setupQueue switchesAt64 2).2.afterPass switchesAt64 7

/-- The first queue waits for its switch event, and only the second is on the heap. -/
theorem oneParked_members_exact :
    oneParked.heap.numbers = [2] ∧
      (oneParked.ptq 1).map (·.switchState) = some .expectingSwitchEvent ∧
      ∀ i, i ∈ oneParked.heap.numbers ↔
        ∃ q, oneParked.ptq i = some q ∧ q.onHeap = true := by
  have hstart : Reachable switchesAt64 twoStates := by
    apply Reachable.start _ rfl (fun _ _ => rfl)
    intro i
    simp only [ptq, queue, twoStates]
    by_cases hi : i = 2
    · rw [hi, update_self]
    · rw [update_of_ne hi]
      by_cases hi : i = 1
      · rw [hi, update_self]
      · rw [update_of_ne hi]
  have hmoment : Moment switchesAt64 twoStates oneParked :=
    (((Moment.call.setup (by decide)).setup (by decide)).afterPass 7)
  exact ⟨by decide +kernel, by decide +kernel,
    (heap_members_exact (fun _ => rfl) hstart hmoment).2.1⟩

end SwitchPt

end RPerf.Queues
