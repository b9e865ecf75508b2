import RPerf.Session.StableFlush

/-!
# The rounds of a session

`process_finished_round` of `session.c`: the buffers of all cpus are read in passes, and a
ROUND flush at the end of a pass delivers up to the greatest timestamp seen at the end of
the pass before.
-/

namespace RPerf.Session

open Lib

/-- A call of `ordered_events__queue`, with the answers it meets. -/
structure Arrival where
  item : Item
  first : Memory
  second : Memory
  turns : ℕ → Turn

/-- A pass: the calls that queue its items, and the answers to the flush that ends it. -/
structure Pass where
  arrivals : List Arrival
  turns : ℕ → Turn

/-- `process_finished_round`. -/
def OrderedEvents.processFinishedRound (oe : OrderedEvents) (turns : ℕ → Turn) :
    Int × OrderedEvents := oe.flush .round turns

def Arrival.op (a : Arrival) : Op := .queue a.item a.first a.second a.turns

def Pass.items (p : Pass) : List Item := p.arrivals.map Arrival.item

/-- The operations of a pass; the last one is `process_finished_round`. -/
def Pass.ops (p : Pass) : List Op := p.arrivals.map Arrival.op ++ [.flush .round p.turns]

/-- No item is later than one that comes two passes or more after it. -/
def TwoApart : List (List Item) → Prop
  | [] => True
  | p :: passes =>
    (∀ q ∈ passes.tail, ∀ x ∈ p, ∀ y ∈ q, x.timestamp ≤ y.timestamp) ∧ TwoApart passes

namespace OrderedEvents

def BoundedBy (t : UInt64) (items : List Item) : Prop :=
  t = 0 ∨ ∃ x ∈ items, t ≤ x.timestamp

variable {oe : OrderedEvents} {old prev items cur : List Item} {t : UInt64} {turns : ℕ → Turn}

theorem BoundedBy.mono {items' : List Item} (h : BoundedBy t items) (hsub : items ⊆ items') :
    BoundedBy t items' := by
  rcases h with h | ⟨x, hx, hle⟩
  · exact .inl h
  · exact .inr ⟨x, hsub hx, hle⟩

theorem BoundedBy.trans {u : UInt64} (h : BoundedBy u items) (hle : t ≤ u) : BoundedBy t items := by
  rcases h with rfl | ⟨x, hx, hux⟩
  · exact .inl (UInt64.le_zero_iff.mp hle)
  · exact .inr ⟨x, hx, UInt64.le_trans hle hux⟩

theorem BoundedBy.le {u : UInt64} (h : BoundedBy t items) (hle : ∀ x ∈ items, x.timestamp ≤ u) :
    t ≤ u := by
  rcases h with rfl | ⟨x, hx, htx⟩
  · exact UInt64.zero_le
  · exact UInt64.le_trans htx (hle x hx)

structure Rounds (oe : OrderedEvents) (old prev cur : List Item) : Prop extends Sound oe where
  lastFlush : BoundedBy oe.lastFlush old
  nextFlush : BoundedBy oe.nextFlush (old ++ prev)
  maxTimestamp : BoundedBy oe.maxTimestamp (old ++ prev ++ cur)
  inOrder : oe.nrUnorderedEvents = 0

theorem rounds_init (maxAllocSize : UInt64) (copyOnQueue : Bool) :
    Rounds (init maxAllocSize copyOnQueue) [] [] [] :=
  ⟨sound_init .., .inl rfl, .inl rfl, .inl rfl, rfl⟩

theorem Rounds.arrive {a : Arrival} (h : Rounds oe old prev cur) (hserved : oe.Served a.op)
    (hts : ¬ refuses a.item.timestamp) (hold : ∀ x ∈ old, x.timestamp ≤ a.item.timestamp) :
    Smooth oe a.op ∧ ∃ oe', oe.step a.op = some (0, oe') ∧
      Rounds oe' old prev (cur ++ [a.item]) := by
  have htime : oe.lastFlush ≤ a.item.timestamp := h.lastFlush.le hold
  obtain ⟨addr, oe₁, hsame, hq⟩ := h.toSound.queue hts htime (hserved hts)
  refine ⟨⟨hserved, fun _ => htime⟩, _, hq, ?_⟩
  exact {
    toSound := (h.congr hsame).inserted _
    lastFlush := by
      change BoundedBy oe₁.lastFlush old
      exact hsame.lastFlush ▸ h.lastFlush
    nextFlush := by
      change BoundedBy oe₁.nextFlush (old ++ prev)
      exact hsame.nextFlush ▸ h.nextFlush
    maxTimestamp := by
      simp only [OrderedEvents.inserted]
      split
      · exact .inr ⟨a.item, by simp, UInt64.le_refl _⟩
      · rw [hsame.maxTimestamp]
        refine h.maxTimestamp.mono ?_
        rw [← List.append_assoc]
        exact List.subset_append_left _ _
    inOrder := hsame.nrUnorderedEvents.trans h.inOrder }

theorem flushTo_of_obliging (h : Obliging turns) (oe : OrderedEvents) :
    (oe.flushTo turns).1 = 0 := by
  simp only [flushTo, flushLoop_eq, served_of_obliging h]
  split <;> rfl

theorem flush_round_nextFlush (hnr : oe.nrEvents ≠ 0) (hob : Obliging turns) :
    (oe.flush .round turns).2.nextFlush = oe.maxTimestamp := by
  obtain ⟨done, rest, hf⟩ := flushTo_flushed oe turns
  simp only [flush, if_neg hnr, limitFor, flushTo_of_obliging hob, if_true]
  exact hf.maxTimestamp

theorem Rounds.finish (h : Rounds oe old prev cur) (hob : Obliging turns) :
    Rounds (oe.processFinishedRound turns).2 (old ++ prev) cur [] := by
  rw [processFinishedRound]
  by_cases hnr : oe.nrEvents = 0
  · -- an empty queue is not flushed and its limit not moved
    have hflush : oe.flush .round turns = (0, oe) := by simp [flush, hnr]
    rw [hflush]
    exact ⟨h.toSound, h.lastFlush.mono (by simp), h.nextFlush.mono (by simp),
      h.maxTimestamp.mono (by simp), h.inOrder⟩
  · have hl : oe.limitOf .round = some oe.nextFlush := by simp [limitOf, limitFor, hnr]
    obtain ⟨done, rest, hf⟩ := flush_flushed hl turns
    have hsound : Sound (oe.flush .round turns).2 := by
      apply h.toSound.drained hf.toDrained (hf.lastIn h.lastIn ?_)
      exact fun hs => hs.1 (served_of_obliging hob _ _ _)
    refine ⟨hsound, ?_, ?_, ?_, hf.nrUnorderedEvents.trans h.inOrder⟩
    · rw [hf.lastFlush]
      cases hlast : done.getLast? with
      | none => exact h.lastFlush.mono (by simp)
      | some e => exact h.nextFlush.trans (hf.within e (List.mem_of_getLast? hlast))
    · rw [flush_round_nextFlush hnr hob]
      exact h.maxTimestamp
    · rw [hf.maxTimestamp]
      exact h.maxTimestamp.mono (by simp)

def InOrder (oe : OrderedEvents) (ops : List Op) : Prop :=
  Along Smooth oe ops ∧ ∃ r, oe.run ops = some r ∧ r.1.nrUnorderedEvents = 0

theorem InOrder.cons {op : Op} {ops : List Op} {r : Int × OrderedEvents} (h : Smooth oe op)
    (hstep : oe.step op = some r) (hrest : InOrder r.2 ops) : InOrder oe (op :: ops) := by
  obtain ⟨halong, r', hrun, hzero⟩ := hrest
  refine ⟨along_cons h hstep halong, (r'.1, op.queued r.1 ++ r'.2), ?_, hzero⟩
  simp only [run, hstep, hrun, Option.map_some]

theorem Rounds.arrivals {arrivals : List Arrival} {ops : List Op} (h : Rounds oe old prev cur)
    (hserved : Along Served oe (arrivals.map Arrival.op ++ ops))
    (harr : ∀ a ∈ arrivals, ¬ refuses a.item.timestamp ∧
      ∀ x ∈ old, x.timestamp ≤ a.item.timestamp)
    (hrest : ∀ oe', Rounds oe' old prev (cur ++ arrivals.map Arrival.item) →
      Along Served oe' ops → InOrder oe' ops) : InOrder oe (arrivals.map Arrival.op ++ ops) := by
  induction arrivals generalizing oe cur with
  | nil => exact hrest oe (by simpa using h) hserved
  | cons a arrivals ih =>
    rw [List.forall_mem_cons] at harr
    obtain ⟨hsmooth, oe', hstep, h'⟩ := h.arrive hserved.1 harr.1.1 harr.1.2
    apply InOrder.cons hsmooth hstep
    apply ih h' (hserved.2 _ hstep) harr.2
    simpa using hrest

structure Delayed (old prev : List Item) (passes : List (List Item)) : Prop where
  old : ∀ q ∈ passes, ∀ x ∈ old, ∀ y ∈ q, x.timestamp ≤ y.timestamp
  prev : ∀ q ∈ passes.tail, ∀ x ∈ prev, ∀ y ∈ q, x.timestamp ≤ y.timestamp
  apart : TwoApart passes

theorem Delayed.tail {p : List Item} {passes : List (List Item)}
    (h : Delayed old prev (p :: passes)) : Delayed (old ++ prev) p passes where
  old q hq x hx y hy := by
    rcases List.mem_append.mp hx with hx | hx
    · exact h.old q (List.mem_cons_of_mem p hq) x hx y hy
    · exact h.prev q hq x hx y hy
  prev := h.apart.1
  apart := h.apart.2

theorem Rounds.passes {passes : List Pass} (h : Rounds oe old prev [])
    (hserved : Along Served oe (passes.flatMap Pass.ops))
    (hts : ∀ p ∈ passes, ∀ x ∈ p.items, ¬ refuses x.timestamp)
    (hdelay : Delayed old prev (passes.map Pass.items)) : InOrder oe (passes.flatMap Pass.ops) := by
  induction passes generalizing oe old prev with
  | nil => exact ⟨trivial, _, rfl, h.inOrder⟩
  | cons p passes ih =>
    rw [List.forall_mem_cons] at hts
    rw [List.flatMap_cons, Pass.ops, List.append_assoc] at hserved ⊢
    apply h.arrivals hserved
    · intro a ha
      have hitem : a.item ∈ p.items := List.mem_map_of_mem ha
      exact ⟨hts.1 _ hitem, fun x hx => hdelay.old p.items (by simp) x hx _ hitem⟩
    · intro oe' h' hserved'
      have hob : Obliging p.turns := hserved'.1
      rw [List.nil_append] at h'
      exact InOrder.cons ⟨hob, trivial⟩ rfl
        (ih (h'.finish hob) (hserved'.2 _ rfl) hts.2 hdelay.tail)

theorem flatMap_offered {passes : List Pass}
    (hts : ∀ p ∈ passes, ∀ x ∈ p.items, ¬ refuses x.timestamp) :
    (passes.flatMap Pass.ops).flatMap Op.offered = passes.flatMap Pass.items := by
  rw [List.flatMap_assoc]
  apply List.flatMap_congr
  intro p hp
  have harr : ∀ a ∈ p.arrivals, a.op.offered = [a.item] := fun a ha =>
    if_neg (hts p hp _ (List.mem_map_of_mem ha))
  rw [Pass.ops, List.flatMap_append, List.flatMap_map, List.flatMap_congr harr]
  simp [Op.offered, Pass.items, List.map_eq_flatMap]

/-- If no item of a pass is later than one that comes two passes or more after it, the rounds and a
FINAL flush deliver the stable sort of all items. -/
theorem rounds_deliver_in_order (maxAllocSize : UInt64) (copyOnQueue : Bool) (passes : List Pass)
    (hserved : Along Served (init maxAllocSize copyOnQueue) (passes.flatMap Pass.ops))
    (hts : ∀ p ∈ passes, ∀ x ∈ p.items, ¬ refuses x.timestamp)
    (hdelay : TwoApart (passes.map Pass.items)) :
    Along OnTime (init maxAllocSize copyOnQueue) (passes.flatMap Pass.ops) ∧
      ∃ oe, (init maxAllocSize copyOnQueue).run (passes.flatMap Pass.ops) =
          some (oe, passes.flatMap Pass.items) ∧
        oe.nrUnorderedEvents = 0 ∧
        ∀ turns, Obliging turns → oe.events.length < 2 ^ 32 →
          (oe.flush .final turns).2.events = [] ∧
          StableSort Item.time ((oe.flush .final turns).2.delivered.map OrderedEvent.toItem)
            (passes.flatMap Pass.items) := by
  have hdelayed : Delayed [] [] (passes.map Pass.items) :=
    ⟨by simp, by simp, hdelay⟩
  obtain ⟨halong, r, hrun, hzero⟩ :=
    (rounds_init maxAllocSize copyOnQueue).passes hserved hts hdelayed
  obtain ⟨oe, hrun', hsorts⟩ := (sorts_init maxAllocSize copyOnQueue).run halong
  rw [flatMap_offered hts] at hrun' hsorts
  cases hrun.symm.trans hrun'
  rw [List.nil_append] at hsorts
  exact ⟨halong.mono fun _ _ h => h.2, oe, hrun', hzero,
    fun turns hob hlen => hsorts.flush_final hob hlen⟩

def plainArrival (timestamp : UInt64) : Arrival :=
  ⟨⟨timestamp, 0, ⟨8, []⟩⟩, ⟨true, true⟩, ⟨true, true⟩, obliging⟩

/-- Three passes, one of them empty. -/
def demoPasses : List Pass :=
  [⟨[plainArrival 5, plainArrival 3], obliging⟩, ⟨[], obliging⟩, ⟨[plainArrival 7], obliging⟩]

theorem demoPasses_served : Along Served (init (0 - 1) false) (demoPasses.flatMap Pass.ops) := by
  apply along_cons (fun _ => ⟨_, _, rfl⟩) rfl
  apply along_cons (fun _ => ⟨_, _, rfl⟩) rfl
  apply along_cons (fun _ => rfl) rfl
  apply along_cons (fun _ => rfl) rfl
  apply along_cons (fun _ => ⟨_, _, rfl⟩) rfl
  exact along_cons (fun _ => rfl) rfl trivial

theorem demoPasses_deliver_in_order :
    Along OnTime (init (0 - 1) false) (demoPasses.flatMap Pass.ops) ∧
      ∃ oe, (init (0 - 1) false).run (demoPasses.flatMap Pass.ops) =
          some (oe, demoPasses.flatMap Pass.items) ∧
        oe.nrUnorderedEvents = 0 := by
  have h := rounds_deliver_in_order (0 - 1) false demoPasses demoPasses_served
    (by decide) (by simp [demoPasses, TwoApart, Pass.items, plainArrival])
  obtain ⟨htime, oe, hrun, hzero, -⟩ := h
  exact ⟨htime, oe, hrun, hzero⟩

/-- A pass of `2^32` items: neither the flush of the round nor a FINAL flush delivers any. -/
theorem rounds_deliver_nothing :
    ∃ passes : List Pass, Along Served (init (0 - 1) false) (passes.flatMap Pass.ops) ∧
      (∀ p ∈ passes, ∀ x ∈ p.items, ¬ refuses x.timestamp) ∧
      TwoApart (passes.map Pass.items) ∧
      ∃ oe items, (init (0 - 1) false).run (passes.flatMap Pass.ops) = some (oe, items) ∧
        oe.events.length = 2 ^ 32 ∧
        ∀ turns, (oe.flush .final turns).2.delivered = [] := by
  obtain ⟨halong, oe, items, hrun, hplain⟩ := plain_init.run (n := 2 ^ 32) (by omega)
  have hnr : oe.nrEvents = 0 := by
    rw [hplain.counted, hplain.length]
    rfl
  have hround : oe.step (.flush .round obliging) = some (0, oe) := by
    simp [step, flush, hnr]
  have hops : [(⟨List.replicate (2 ^ 32) (plainArrival 1), obliging⟩ : Pass)].flatMap Pass.ops =
      List.replicate (2 ^ 32) plainOp ++ [.flush .round obliging] := by
    rw [List.flatMap_singleton, Pass.ops, List.map_replicate]
    rfl
  refine ⟨[⟨List.replicate (2 ^ 32) (plainArrival 1), obliging⟩], ?_, ?_,
    ⟨fun _ hq => absurd hq List.not_mem_nil, trivial⟩, ?_⟩
  · rw [hops]
    exact (halong.mono fun _ _ h => h.1).append hrun (along_cons (fun _ => rfl) hround trivial)
  · intro p hp x hx
    rw [List.mem_singleton.mp hp, Pass.items, List.map_replicate] at hx
    rw [List.eq_of_mem_replicate hx]
    decide
  · have hlast : oe.run [.flush .round obliging] = some (oe, []) := by
      simp [run, hround, Op.queued]
    refine ⟨oe, items ++ [], ?_, hplain.length.trans (Nat.zero_add _), ?_⟩
    · rw [hops]
      exact run_append hrun hlast
    · intro turns
      simpa [flush, hnr] using hplain.delivered

end OrderedEvents

end RPerf.Session
