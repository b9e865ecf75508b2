import RPerf.Session.QueueEffects

/-!
# The queue delivers a stable sort

As long as allocation and delivery succeed and nothing is queued that is earlier than what
was last delivered, the delivered entries followed by those on the list are at any time the
stable sort of what was queued.
-/

namespace RPerf.Session

open Lib

/-- The item a call of `ordered_events__queue` may accept. -/
def Op.offered : Op → List Item
  | .queue item _ _ _ => if OrderedEvents.refuses item.timestamp then [] else [item]
  | .flush _ _ => []

namespace OrderedEvents

/-- `alloc_event` gives an entry. -/
def Allocates (oe : OrderedEvents) (event : PerfEvent) (mem : Memory) : Prop :=
  ∃ a oe', oe.allocEvent event mem = some (some a, oe')

/-- Delivery and allocation succeed. -/
def Served (oe : OrderedEvents) : Op → Prop
  | .queue item first _ _ => ¬ refuses item.timestamp → oe.Allocates item.event first
  | .flush _ turns => Obliging turns

/-- The item is not earlier than what was last delivered. -/
def OnTime (oe : OrderedEvents) : Op → Prop
  | .queue item _ _ _ => ¬ refuses item.timestamp → oe.lastFlush ≤ item.timestamp
  | .flush _ _ => True

structure Sound (oe : OrderedEvents) : Prop where
  ordered : Ordered OrderedEvent.time oe.events
  lastIn : LastIn oe.last oe.events
  counted : oe.nrEvents = UInt32.ofNat oe.events.length

theorem sound_init (maxAllocSize : UInt64) (copyOnQueue : Bool) :
    Sound (init maxAllocSize copyOnQueue) := ⟨ordered_nil, rfl, rfl⟩

variable {oe oe' : OrderedEvents} {turns : ℕ → Turn} {items : List Item}

theorem Sound.congr (h : Sound oe) (hsame : SameList oe oe') : Sound oe' where
  ordered := hsame.events ▸ h.ordered
  lastIn := by rw [hsame.last, hsame.events]; exact h.lastIn
  counted := by rw [hsame.nrEvents, hsame.events, h.counted]

theorem Sound.inserted (h : Sound oe) (new : OrderedEvent) : Sound (oe.inserted new) where
  ordered := h.ordered.place
  lastIn := ⟨new, mem_place.mpr (.inl rfl), rfl⟩
  counted := by
    simp only [OrderedEvents.inserted, length_place, UInt32.ofNat_add, h.counted]
    rfl

theorem Sound.queueEvent (h : Sound oe) (new : OrderedEvent) :
    oe.queueEvent new = some (oe.inserted new) := queueEvent_eq new h.ordered h.lastIn

theorem Sound.drained {done rest : List OrderedEvent} (h : Sound oe) (hd : Drained oe oe' done rest)
    (hlast : LastIn oe'.last rest) : Sound oe' where
  ordered := by
    have hord := h.ordered
    rw [hd.split, ordered_append] at hord
    exact hd.events ▸ hord.2.1
  lastIn := hd.events ▸ hlast
  counted := by
    rw [hd.nrEvents, h.counted, hd.split, hd.events, List.length_append, UInt32.ofNat_add]
    grind

def Strands (oe : OrderedEvents) (how : OeFlush) (turns : ℕ → Turn) : Prop :=
  ∃ limit ∈ oe.limitOf how, oe.StrandsAt limit turns

theorem not_strands_of_obliging (h : Obliging turns) (oe : OrderedEvents) (how : OeFlush) :
    ¬ oe.Strands how turns := by
  rintro ⟨limit, -, hne, -⟩
  exact hne (served_of_obliging h limit 0 oe.events)

theorem Sound.flush (h : Sound oe) {how : OeFlush} (hkeep : ¬ oe.Strands how turns) :
    ∃ done rest, Drained oe (oe.flush how turns).2 done rest ∧ Sound (oe.flush how turns).2 := by
  cases hl : oe.limitOf how with
  | none =>
    rw [flush_of_limit_none hl]
    exact ⟨[], oe.events, Drained.refl oe, h⟩
  | some limit =>
    obtain ⟨done, rest, hf⟩ := flush_flushed hl turns
    refine ⟨done, rest, hf.toDrained, h.drained hf.toDrained (hf.lastIn h.lastIn ?_)⟩
    exact fun hs => hkeep ⟨limit, hl, hs⟩

theorem Sound.queue (h : Sound oe) {item : Item} {first second : Memory}
    (hts : ¬ refuses item.timestamp) (hlate : oe.lastFlush ≤ item.timestamp)
    (halloc : oe.Allocates item.event first) :
    ∃ addr oe₁, SameList oe oe₁ ∧ oe.queue item first second turns =
      some (0, oe₁.inserted { toItem := item, addr }) := by
  obtain ⟨addr, oe₁, halloc⟩ := halloc
  have hsame := sameList_allocEvent halloc
  refine ⟨addr, oe₁, hsame, ?_⟩
  have hlt : ¬ item.timestamp < oe.lastFlush := UInt64.not_lt.mpr hlate
  simp [OrderedEvents.queue, countUnordered, newEvent, hts, hlt, halloc,
    (h.congr hsame).queueEvent]

theorem queue_refused {item : Item} (h : refuses item.timestamp) (first second : Memory)
    (turns : ℕ → Turn) : oe.queue item first second turns = some (etime, oe) := by
  simp [queue, h]

structure Sorts (oe : OrderedEvents) (items : List Item) : Prop extends Sound oe where
  sorts : StableSort Item.time ((oe.delivered ++ oe.events).map OrderedEvent.toItem) items
  delivered : ∀ e ∈ oe.delivered, e.time ≤ oe.lastFlush.toNat

theorem sorts_init (maxAllocSize : UInt64) (copyOnQueue : Bool) :
    Sorts (init maxAllocSize copyOnQueue) [] :=
  ⟨sound_init .., StableSort.nil, by simp [init]⟩

theorem map_place (new : OrderedEvent) (l : List OrderedEvent) :
    (place OrderedEvent.time new l).map OrderedEvent.toItem =
      place Item.time new.toItem (l.map OrderedEvent.toItem) :=
  List.map_orderedInsert _ _ _ l new (fun _ _ => Iff.rfl) (fun _ _ => Iff.rfl)

theorem Sorts.inserted {oe₁ : OrderedEvents} (h : Sorts oe items) (hsame : SameList oe oe₁)
    {new : OrderedEvent} (hlate : oe.lastFlush ≤ new.timestamp) :
    Sorts (oe₁.inserted new) (items ++ [new.toItem]) where
  toSound := (h.congr hsame).inserted new
  sorts := by
    have hle : ∀ e ∈ oe.delivered, e.time ≤ new.time := fun e he =>
      (h.delivered e he).trans (UInt64.le_iff_toNat_le.mp hlate)
    change StableSort _ ((oe₁.delivered ++ place OrderedEvent.time new oe₁.events).map _) _
    rw [hsame.delivered, hsame.events, ← place_append _ hle, map_place]
    exact h.sorts.place new.toItem
  delivered := by
    change ∀ e ∈ oe₁.delivered, e.time ≤ oe₁.lastFlush.toNat
    rw [hsame.delivered, hsame.lastFlush]
    exact h.delivered

theorem time_le_getLast {l : List OrderedEvent} (h : Ordered OrderedEvent.time l)
    {e last : OrderedEvent} (he : e ∈ l) (hlast : l.getLast? = some last) :
    e.time ≤ last.time := by
  obtain ⟨init, rfl⟩ := List.getLast?_eq_some_iff.mp hlast
  rcases List.mem_append.mp he with he | he
  · exact (ordered_append.mp h).2.2 e he last (by simp)
  · rw [List.mem_singleton.mp he]

theorem Sorts.drained {done rest : List OrderedEvent} (h : Sorts oe items)
    (hd : Drained oe oe' done rest) (hsound : Sound oe') : Sorts oe' items where
  toSound := hsound
  sorts := by
    rw [hd.delivered, hd.events, List.append_assoc, ← hd.split]
    exact h.sorts
  delivered := by
    rw [hd.delivered, hd.lastFlush]
    cases hlast : done.getLast? with
    | none =>
      rw [List.getLast?_eq_none_iff.mp hlast, List.append_nil]
      exact h.delivered
    | some last =>
      intro e he
      have hord := ordered_map.mp h.sorts.ordered
      rw [hd.split, ← List.append_assoc, ordered_append] at hord
      exact time_le_getLast hord.1 he (by simp [List.getLast?_append, hlast])

theorem Sorts.step {op : Op} (h : Sorts oe items) (hserved : oe.Served op) (htime : oe.OnTime op) :
    ∃ ret oe', oe.step op = some (ret, oe') ∧ op.queued ret = op.offered ∧
      Sorts oe' (items ++ op.offered) := by
  cases op with
  | queue item first second turns =>
    by_cases hts : refuses item.timestamp
    · refine ⟨etime, oe, queue_refused hts first second turns, ?_, ?_⟩
      · simp [Op.queued, Op.offered, hts, etime]
      · simpa [Op.offered, hts] using h
    · obtain ⟨addr, oe₁, hsame, hq⟩ := h.toSound.queue hts (htime hts) (hserved hts)
      refine ⟨0, _, hq, ?_, ?_⟩
      · simp [Op.queued, Op.offered, hts]
      · simpa [Op.offered, hts] using h.inserted hsame (htime hts)
  | flush how turns =>
    obtain ⟨done, rest, hd, hsound⟩ := h.toSound.flush (not_strands_of_obliging hserved oe how)
    refine ⟨(oe.flush how turns).1, (oe.flush how turns).2, rfl, rfl, ?_⟩
    simpa [Op.offered] using h.drained hd hsound

/-- Both conditions on an operation. -/
def Smooth (oe : OrderedEvents) (op : Op) : Prop := oe.Served op ∧ oe.OnTime op

theorem Sorts.run {ops : List Op} (h : Sorts oe items) (hsmooth : Along Smooth oe ops) :
    ∃ oe', oe.run ops = some (oe', ops.flatMap Op.offered) ∧
      Sorts oe' (items ++ ops.flatMap Op.offered) := by
  induction ops generalizing oe items with
  | nil => exact ⟨oe, rfl, by simpa using h⟩
  | cons op ops ih =>
    obtain ⟨⟨hserved, htime⟩, hrest⟩ := hsmooth
    obtain ⟨ret, oe₁, hstep, hq, hsorts⟩ := h.step hserved htime
    obtain ⟨oe', hrun, hsorts'⟩ := ih hsorts (hrest _ hstep)
    refine ⟨oe', ?_, ?_⟩
    · simp [OrderedEvents.run, hstep, hrun, hq]
    · simpa using hsorts'

theorem Sound.flush_final (h : Sound oe) (hob : Obliging turns) (hlen : oe.events.length < 2 ^ 32) :
    (oe.flush .final turns).2.events = [] := by
  by_cases hnr : oe.nrEvents = 0
  · have hnil : oe.events = [] := by
      rw [h.counted, ← UInt32.toNat_inj, UInt32.toNat_ofNat_of_lt' hlen] at hnr
      exact List.length_eq_zero_iff.mp hnr
    simp [OrderedEvents.flush, hnr, hnil]
  · have hl : oe.limitOf .final = some (0 - 1) := by simp [limitOf, limitFor, hnr]
    obtain ⟨done, rest, hf⟩ := flush_flushed hl turns
    rw [hf.events]
    cases rest with
    | nil => rfl
    | cons e rest =>
      have hlt := hf.beyond hob (by decide) e rfl
      rw [UInt64.lt_iff_toNat_lt] at hlt
      have hmax := e.timestamp.toNat_lt
      simp at hlt
      omega

theorem Sorts.flush_final (h : Sorts oe items) (hob : Obliging turns)
    (hlen : oe.events.length < 2 ^ 32) :
    (oe.flush .final turns).2.events = [] ∧
      StableSort Item.time ((oe.flush .final turns).2.delivered.map OrderedEvent.toItem) items := by
  have hnil := h.toSound.flush_final hob hlen
  obtain ⟨done, rest, hd, hsound⟩ := h.toSound.flush (not_strands_of_obliging hob oe .final)
  have hsorts := (h.drained hd hsound).sorts
  rw [hnil, List.append_nil] at hsorts
  exact ⟨hnil, hsorts⟩

/-- The delivered entries followed by the list are the stable sort of the accepted items. -/
theorem run_delivers_stable_sort (maxAllocSize : UInt64) (copyOnQueue : Bool) (ops : List Op)
    (h : Along Smooth (init maxAllocSize copyOnQueue) ops) :
    ∃ oe, (init maxAllocSize copyOnQueue).run ops = some (oe, ops.flatMap Op.offered) ∧
      StableSort Item.time ((oe.delivered ++ oe.events).map OrderedEvent.toItem)
        (ops.flatMap Op.offered) ∧
      Ordered OrderedEvent.time oe.events ∧
      oe.nrEvents.toNat = oe.events.length % 2 ^ 32 ∧
      LastIn oe.last oe.events ∧
      ∀ turns, Obliging turns → oe.events.length < 2 ^ 32 →
        (oe.flush .final turns).2.events = [] ∧
        StableSort Item.time ((oe.flush .final turns).2.delivered.map OrderedEvent.toItem)
          (ops.flatMap Op.offered) := by
  obtain ⟨oe, hrun, hsorts⟩ := (sorts_init maxAllocSize copyOnQueue).run h
  rw [List.nil_append] at hsorts
  refine ⟨oe, hrun, hsorts.sorts, hsorts.ordered, ?_, hsorts.lastIn, ?_⟩
  · rw [hsorts.counted, UInt32.toNat_ofNat']
  · exact fun turns hob hlen => hsorts.flush_final hob hlen

/-- Everything is delivered. -/
def obliging : ℕ → Turn := fun _ => ⟨false, 0⟩

/-- Two items, the later one first, and a flush. -/
def demoOps : List Op :=
  [.queue ⟨2, 0, ⟨8, []⟩⟩ ⟨true, true⟩ ⟨true, true⟩ obliging,
    .queue ⟨1, 8, ⟨8, []⟩⟩ ⟨true, true⟩ ⟨true, true⟩ obliging,
    .flush .final obliging]

theorem along_demoOps : Along Smooth (init (0 - 1) false) demoOps := by
  apply along_cons ⟨fun _ => ⟨_, _, rfl⟩, fun _ => by decide⟩ rfl
  apply along_cons ⟨fun _ => ⟨_, _, rfl⟩, fun _ => by decide⟩ rfl
  exact along_cons ⟨fun _ => rfl, trivial⟩ rfl trivial

theorem demoOps_deliver_stable_sort :
    Along Smooth (init (0 - 1) false) demoOps ∧
      ∃ oe, (init (0 - 1) false).run demoOps = some (oe, demoOps.flatMap Op.offered) ∧
        StableSort Item.time ((oe.delivered ++ oe.events).map OrderedEvent.toItem)
          (demoOps.flatMap Op.offered) := by
  obtain ⟨oe, hrun, hsort, -⟩ := run_delivers_stable_sort (0 - 1) false demoOps along_demoOps
  exact ⟨along_demoOps, oe, hrun, hsort⟩

def plainOp : Op := .queue ⟨1, 0, ⟨8, []⟩⟩ ⟨true, true⟩ ⟨true, true⟩ obliging

theorem allocEvent_plain {event : PerfEvent} (hcopy : oe.copyOnQueue = false)
    (hcur : oe.curAllocSize.toNat + 65520 < oe.maxAllocSize.toNat) :
    ∃ a oe', oe.allocEvent event ⟨true, true⟩ = some (some a, oe') ∧
      oe'.curAllocSize.toNat ≤ oe.curAllocSize.toNat + 65520 ∧
      oe'.maxAllocSize = oe.maxAllocSize ∧ oe'.copyOnQueue = oe.copyOnQueue := by
  have hdup : oe.dupEvent event true = some oe := by simp [dupEvent, hcopy]
  simp only [allocEvent, hdup]
  cases hcache : oe.cache with
  | cons a cache => exact ⟨_, _, rfl, by simp, rfl, rfl⟩
  | nil =>
    cases hbuf : oe.buffer with
    | some block => exact ⟨_, _, rfl, by simp, rfl, rfl⟩
    | none =>
      have hlt : oe.curAllocSize < oe.maxAllocSize := by
        rw [UInt64.lt_iff_toNat_lt]
        omega
      simp only [if_pos hlt, if_true]
      refine ⟨_, _, rfl, ?_, rfl, rfl⟩
      simp only [UInt64.toNat_add]
      exact Nat.mod_le _ _

/-- `k` plain items were queued. -/
structure Plain (k : ℕ) (oe : OrderedEvents) : Prop extends Sound oe where
  length : oe.events.length = k
  delivered : oe.delivered = []
  lastFlush : oe.lastFlush = 0
  size : oe.curAllocSize.toNat ≤ 65520 * k
  limit : oe.maxAllocSize = 0 - 1
  copy : oe.copyOnQueue = false

theorem Plain.step {k : ℕ} (h : Plain k oe) (hk : k < 2 ^ 32) :
    Smooth oe plainOp ∧ ∃ oe', oe.step plainOp = some (0, oe') ∧ Plain (k + 1) oe' := by
  have hroom : oe.curAllocSize.toNat + 65520 < oe.maxAllocSize.toNat := by
    have hsize := h.size
    have hmax : oe.maxAllocSize.toNat = 2 ^ 64 - 1 := by rw [h.limit]; rfl
    omega
  obtain ⟨a, oe₁, halloc, hcur, hlim, hcopy⟩ := allocEvent_plain h.copy hroom
  have hts : ¬ refuses (1 : UInt64) := by decide
  have hlate : oe.lastFlush ≤ 1 := by rw [h.lastFlush]; decide
  have hsame := sameList_allocEvent halloc
  refine ⟨⟨fun _ => ⟨a, oe₁, halloc⟩, fun _ => hlate⟩, ?_⟩
  have hsound := h.congr hsame
  refine ⟨oe₁.inserted ⟨⟨1, 0, ⟨8, []⟩⟩, a⟩, ?_, ?_⟩
  · have hlt : ¬ (1 : UInt64) < oe.lastFlush := UInt64.not_lt.mpr hlate
    simp [OrderedEvents.step, plainOp, queue, countUnordered, newEvent, hts, hlt, halloc,
      hsound.queueEvent]
  · exact {
      toSound := hsound.inserted _
      length := by
        simp only [OrderedEvents.inserted, length_place, hsame.events, h.length]
      delivered := hsame.delivered.trans h.delivered
      lastFlush := hsame.lastFlush.trans h.lastFlush
      size := by
        have hsize := h.size
        change oe₁.curAllocSize.toNat ≤ _
        omega
      limit := hlim.trans h.limit
      copy := hcopy.trans h.copy }

theorem Plain.run {n k : ℕ} (h : Plain k oe) (hn : k + n ≤ 2 ^ 32) :
    Along Smooth oe (List.replicate n plainOp) ∧
      ∃ oe' items, oe.run (List.replicate n plainOp) = some (oe', items) ∧ Plain (k + n) oe' := by
  induction n generalizing k oe with
  | zero => exact ⟨trivial, oe, [], rfl, h⟩
  | succ n ih =>
    obtain ⟨hsmooth, oe₁, hstep, h₁⟩ := h.step (by omega)
    obtain ⟨halong, oe', items, hrun, h'⟩ := ih h₁ (by omega)
    rw [List.replicate_succ]
    refine ⟨along_cons hsmooth hstep halong, oe', plainOp.queued 0 ++ items, ?_, ?_⟩
    · simp only [OrderedEvents.run, hstep, hrun, Option.map_some]
    · rwa [Nat.add_right_comm] at h'

theorem plain_init : Plain 0 (init (0 - 1) false) where
  toSound := sound_init _ _
  length := rfl
  delivered := rfl
  lastFlush := rfl
  size := by simp [init]
  limit := rfl
  copy := rfl

/-- After `2^32` items the counter is zero, and a FINAL flush returns at once. -/
theorem final_flush_delivers_nothing :
    ∃ ops, Along Smooth (init (0 - 1) false) ops ∧
      ∃ oe items, (init (0 - 1) false).run ops = some (oe, items) ∧
        oe.events.length = 2 ^ 32 ∧ oe.nrEvents = 0 ∧
        ∀ turns, (oe.flush .final turns).2.delivered = [] := by
  obtain ⟨halong, oe, items, hrun, hplain⟩ := plain_init.run (n := 2 ^ 32) (by omega)
  have hnr : oe.nrEvents = 0 := by
    rw [hplain.counted, hplain.length]
    rfl
  refine ⟨_, halong, oe, items, hrun, hplain.length.trans (Nat.zero_add _), hnr, ?_⟩
  intro turns
  simpa [flush, hnr] using hplain.delivered

end OrderedEvents

end RPerf.Session
