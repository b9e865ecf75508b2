import RPerf.Session.StableFlush

/-!
# A flush that fails

When `deliver` fails, or the session ends, in the middle of a flush, the loop is left
without the code after it that moves `oe->last`.
-/

namespace RPerf.Session

open Lib

namespace OrderedEvents

def addrs (oe : OrderedEvents) : List Addr :=
  oe.events.map OrderedEvent.addr ++ oe.cache.map Prod.fst

structure Owns (oe : OrderedEvents) (l : List Addr) : Prop where
  nodup : l.Nodup
  used : ∀ a ∈ l, a.block < oe.blocks ∧ (oe.buffer = some a.block → a.idx < oe.bufferIdx)
  buffer : ∀ b ∈ oe.buffer, b < oe.blocks

variable {oe oe' : OrderedEvents} {items : List Item} {l : List Addr} {event : PerfEvent}
  {mem : Memory}

theorem Owns.perm {l' : List Addr} (h : Owns oe l) (hp : l.Perm l') : Owns oe l' where
  nodup := hp.nodup_iff.mp h.nodup
  used a ha := h.used a (hp.mem_iff.mpr ha)
  buffer := h.buffer

theorem Owns.takeBuffer {block : ℕ} (h : Owns oe l) (hbuf : oe.buffer = some block)
    (hblocks : oe'.blocks = oe.blocks) (hidx : oe'.bufferIdx = oe.bufferIdx + 1)
    (hbuf' : ∀ b ∈ oe'.buffer, b = block) :
    Owns oe' (⟨block, oe.bufferIdx⟩ :: l) where
  nodup := by
    refine List.nodup_cons.mpr ⟨?_, h.nodup⟩
    intro hmem
    exact lt_irrefl _ ((h.used _ hmem).2 hbuf)
  used a ha := by
    rw [hblocks, hidx]
    rcases List.mem_cons.mp ha with rfl | ha
    · exact ⟨h.buffer block hbuf, fun _ => Nat.lt_succ_self _⟩
    · obtain ⟨hblock, hlt⟩ := h.used a ha
      refine ⟨hblock, ?_⟩
      intro hb
      exact (hlt (hbuf.trans (by rw [hbuf' _ hb]))).trans (Nat.lt_succ_self _)
  buffer b hb := by
    rw [hblocks, hbuf' b hb]
    exact h.buffer block hbuf

theorem Owns.takeBlock (h : Owns oe l) (hblocks : oe'.blocks = oe.blocks + 1)
    (hbuf : oe'.buffer = some oe.blocks) (hidx : oe'.bufferIdx = 2) :
    Owns oe' (⟨oe.blocks, 1⟩ :: l) where
  nodup := by
    refine List.nodup_cons.mpr ⟨?_, h.nodup⟩
    intro hmem
    exact lt_irrefl _ (h.used _ hmem).1
  used a ha := by
    rw [hblocks, hidx, hbuf]
    rcases List.mem_cons.mp ha with rfl | ha
    · exact ⟨Nat.lt_succ_self _, fun _ => Nat.one_lt_two⟩
    · have hblock := (h.used a ha).1
      refine ⟨hblock.trans (Nat.lt_succ_self _), ?_⟩
      intro hb
      exact absurd (Option.some.inj hb).symm hblock.ne
  buffer b hb := by
    rw [hbuf] at hb
    cases hb
    rw [hblocks]
    exact Nat.lt_succ_self _

theorem Owns.dupEvent {memdup : Bool} (h : Owns oe oe.addrs)
    (hdup : oe.dupEvent event memdup = some oe') : Owns oe' oe'.addrs := by
  rw [OrderedEvents.dupEvent] at hdup
  split_ifs at hdup <;> cases hdup
  · exact { h with }
  · exact h

theorem Owns.freeDupEvent (h : Owns oe oe.addrs) (event : PerfEvent) :
    Owns (oe.freeDupEvent event) (oe.freeDupEvent event).addrs := by
  rw [OrderedEvents.freeDupEvent]
  split
  · exact { h with }
  · exact h

theorem Owns.allocEvent {a : Option Addr} (h : Owns oe oe.addrs)
    (halloc : oe.allocEvent event mem = some (a, oe')) : Owns oe' (a.toList ++ oe'.addrs) := by
  cases allocEvent_cases halloc with
  | noCopy => exact h
  | @cached oe₁ entry cache hdup hcache =>
    have hperm : oe₁.addrs.Perm
        (entry.1 :: (oe₁.events.map OrderedEvent.addr ++ cache.map Prod.fst)) := by
      rw [addrs, hcache, List.map_cons]
      exact List.perm_middle
    exact { (h.dupEvent hdup).perm hperm with }
  | buffered hdup hbuf hsame => exact (h.dupEvent hdup).takeBuffer hbuf rfl rfl hsame
  | @block oe₁ hdup =>
    -- with `addrs` folded the sizes of both queues would be compared
    have h₁ : Owns oe₁ (oe₁.events.map OrderedEvent.addr ++ oe₁.cache.map Prod.fst) :=
      h.dupEvent hdup
    exact h₁.takeBlock rfl rfl rfl
  | noBlock hdup => exact (h.dupEvent hdup).freeDupEvent event

structure Usable (oe : OrderedEvents) (items : List Item) : Prop extends Sound oe where
  owns : Owns oe oe.addrs
  kept : ((oe.delivered ++ oe.events).map OrderedEvent.toItem).Perm items

theorem usable_init (maxAllocSize : UInt64) (copyOnQueue : Bool) :
    Usable (init maxAllocSize copyOnQueue) [] :=
  ⟨sound_init .., ⟨List.nodup_nil, nofun, nofun⟩, .nil⟩

theorem Usable.countUnordered (h : Usable oe items) (timestamp : UInt64) :
    Usable (oe.countUnordered timestamp) items := by
  rw [OrderedEvents.countUnordered]
  split
  · exact ⟨⟨h.ordered, h.lastIn, h.counted⟩, { h.owns with }, h.kept⟩
  · exact h

theorem Usable.newEvent {item : Item} (h : Usable oe items)
    (hroom : oe.allocEvent item.event mem ≠ none) :
    ∃ ok oe', oe.newEvent item mem = some (ok, oe') ∧
      Usable oe' (items ++ if ok then [item] else []) := by
  cases halloc : oe.allocEvent item.event mem with
  | none => exact absurd halloc hroom
  | some r =>
    obtain ⟨a, oe₁⟩ := r
    have hsame := sameList_allocEvent halloc
    have hsound := h.congr hsame
    have howns := h.owns.allocEvent halloc
    have hkept : ((oe₁.delivered ++ oe₁.events).map OrderedEvent.toItem).Perm items := by
      rw [hsame.delivered, hsame.events]
      exact h.kept
    cases a with
    | none =>
      refine ⟨false, oe₁, by simp [OrderedEvents.newEvent, halloc], ?_⟩
      simpa using (⟨hsound, howns, hkept⟩ : Usable oe₁ items)
    | some a =>
      have hplace : (place OrderedEvent.time ⟨item, a⟩ oe₁.events).Perm
          ((⟨item, a⟩ : OrderedEvent) :: oe₁.events) := place_perm _ _
      refine ⟨true, oe₁.inserted ⟨item, a⟩, ?_, hsound.inserted _, ?_, ?_⟩
      · simp [OrderedEvents.newEvent, halloc, hsound.queueEvent]
      · have hperm : (a :: oe₁.addrs).Perm (oe₁.inserted ⟨item, a⟩).addrs :=
          (hplace.map OrderedEvent.addr).symm.append_right _
        exact { howns.perm hperm with }
      · have hperm : (oe₁.delivered ++ place OrderedEvent.time ⟨item, a⟩ oe₁.events).Perm
            ((oe₁.delivered ++ oe₁.events) ++ [⟨item, a⟩]) :=
          (hplace.append_left _).trans
            (List.perm_middle.trans (List.perm_append_singleton _ _).symm)
        refine (hperm.map OrderedEvent.toItem).trans ?_
        rw [List.map_append]
        exact hkept.append_right _

theorem Drained.addrs_perm {done rest : List OrderedEvent} (h : Drained oe oe' done rest) :
    oe.addrs.Perm oe'.addrs := by
  have hfree : (done.reverse.map fun e => (e.addr, e.timestamp)).map Prod.fst =
      (done.map OrderedEvent.addr).reverse := by
    rw [List.map_map, ← List.map_reverse]
    rfl
  rw [addrs, addrs, h.split, h.events, h.cache, List.map_append, List.map_append, hfree]
  refine (List.perm_append_comm.append_right _).trans ?_
  rw [List.append_assoc]
  exact ((List.reverse_perm _).symm.append_right _).append_left _

theorem Usable.flush (h : Usable oe items) {how : OeFlush} {turns : ℕ → Turn}
    (hkeep : ¬ oe.Strands how turns) : Usable (oe.flush how turns).2 items := by
  obtain ⟨done, rest, hd, hsound⟩ := h.toSound.flush hkeep
  refine ⟨hsound, ?_, ?_⟩
  · have howns := h.owns.perm hd.addrs_perm
    refine ⟨howns.nodup, ?_, ?_⟩
    · rw [hd.blocks, hd.buffer, hd.bufferIdx]
      exact howns.used
    · rw [hd.buffer, hd.blocks]
      exact howns.buffer
  · rw [hd.delivered, hd.events, List.append_assoc, ← hd.split]
    exact h.kept

/-- `alloc_event` comes to a free entry, a block in use or an open limit. -/
def Obtains (oe : OrderedEvents) (event : PerfEvent) (mem : Memory) : Prop :=
  ∀ oe₁, oe.dupEvent event mem.memdup = some oe₁ →
    oe₁.cache ≠ [] ∨ oe₁.buffer ≠ none ∨ oe₁.curAllocSize < oe₁.maxAllocSize

theorem allocEvent_ne_none_iff : oe.allocEvent event mem ≠ none ↔ oe.Obtains event mem := by
  unfold Obtains OrderedEvents.allocEvent
  cases hdup : oe.dupEvent event mem.memdup with
  | none => simp
  | some oe₁ =>
    simp only [Option.some.injEq, forall_eq']
    cases hcache : oe₁.cache with
    | cons a cache => simp
    | nil =>
      cases hbuf : oe₁.buffer with
      | some block => simp
      | none =>
        by_cases hsize : oe₁.curAllocSize < oe₁.maxAllocSize
        · simp only [hsize, if_true, or_true, iff_true]
          split_ifs <;> simp
        · simp [hsize]

/-- No flush strands `last`, and no entry is taken through a null pointer. -/
def Keeps (oe : OrderedEvents) : Op → Prop
  | .flush how turns => ¬ oe.Strands how turns
  | .queue item first second turns =>
    ¬ refuses item.timestamp →
      (oe.countUnordered item.timestamp).Obtains item.event first ∧
      ∀ oe₁, (oe.countUnordered item.timestamp).newEvent item first = some (false, oe₁) →
        ¬ oe₁.Strands .half turns ∧ (oe₁.flush .half turns).2.Obtains item.event second

theorem Usable.step {op : Op} (h : Usable oe items) (hkeep : Keeps oe op) :
    ∃ r, oe.step op = some r ∧ Usable r.2 (items ++ op.queued r.1) := by
  cases op with
  | flush how turns =>
    refine ⟨oe.flush how turns, rfl, ?_⟩
    simpa [Op.queued] using h.flush hkeep
  | queue item first second turns =>
    by_cases hts : refuses item.timestamp
    · refine ⟨(etime, oe), queue_refused hts first second turns, ?_⟩
      simpa [Op.queued, etime] using h
    · obtain ⟨hroom, hfail⟩ := hkeep hts
      obtain ⟨ok, oe₁, hnew, h₁⟩ :=
        (h.countUnordered item.timestamp).newEvent (allocEvent_ne_none_iff.mpr hroom)
      cases ok with
      | true =>
        refine ⟨(0, oe₁), by simp [OrderedEvents.step, queue, hts, hnew], ?_⟩
        simpa [Op.queued] using h₁
      | false =>
        obtain ⟨hstrand, hroom₂⟩ := hfail oe₁ hnew
        simp only [Bool.false_eq_true, if_false, List.append_nil] at h₁
        obtain ⟨ok, oe₂, hnew₂, h₂⟩ :=
          (h₁.flush hstrand).newEvent (allocEvent_ne_none_iff.mpr hroom₂)
        cases ok with
        | true =>
          refine ⟨(0, oe₂), by simp [OrderedEvents.step, queue, hts, hnew, hnew₂], ?_⟩
          simpa [Op.queued] using h₂
        | false =>
          refine ⟨(enomem, oe₂), by simp [OrderedEvents.step, queue, hts, hnew, hnew₂], ?_⟩
          simpa [Op.queued, enomem] using h₂

theorem Usable.run {ops : List Op} (h : Usable oe items) (hkeep : Along Keeps oe ops) :
    ∃ r, oe.run ops = some r ∧ Usable r.1 (items ++ r.2) := by
  induction ops generalizing oe items with
  | nil => exact ⟨(oe, []), rfl, by simpa using h⟩
  | cons op ops ih =>
    obtain ⟨r, hstep, h₁⟩ := h.step hkeep.1
    obtain ⟨r', hrun, h'⟩ := ih h₁ (hkeep.2 r hstep)
    refine ⟨(r'.1, op.queued r.1 ++ r'.2), ?_, ?_⟩
    · simp [OrderedEvents.run, hstep, hrun]
    · simpa using h'

/-- A queue whose flushes strand nothing stays usable. -/
theorem run_keeps_usable (maxAllocSize : UInt64) (copyOnQueue : Bool) (ops : List Op)
    (hkeep : Along Keeps (init maxAllocSize copyOnQueue) ops) :
    ∃ r, (init maxAllocSize copyOnQueue).run ops = some r ∧
      LastIn r.1.last r.1.events ∧
      Ordered OrderedEvent.time r.1.events ∧
      (r.1.events.map OrderedEvent.addr).Nodup ∧
      (∀ e ∈ r.1.events, ∀ c ∈ r.1.cache, e.addr ≠ c.1) ∧
      ((r.1.delivered ++ r.1.events).map OrderedEvent.toItem).Perm r.2 := by
  obtain ⟨r, hrun, h⟩ := (usable_init maxAllocSize copyOnQueue).run hkeep
  obtain ⟨hnodup, -, hdisj⟩ := List.nodup_append.mp h.owns.nodup
  refine ⟨r, hrun, h.lastIn, h.ordered, hnodup, ?_, h.kept⟩
  intro e he c hc
  exact hdisj _ (List.mem_map_of_mem he) _ (List.mem_map_of_mem hc)

/-- `deliver` fails at the `n`-th entry it is called for. -/
def failsAt (n : ℕ) : ℕ → Turn := fun i => ⟨false, if i = n then -1 else 0⟩

def failingOps (n : ℕ) : List Op :=
  [.queue ⟨2, 0, ⟨8, []⟩⟩ ⟨true, true⟩ ⟨true, true⟩ (failsAt n),
    .queue ⟨1, 8, ⟨8, []⟩⟩ ⟨true, true⟩ ⟨true, true⟩ (failsAt n),
    .flush .final (failsAt n)]

theorem failingOps_zero_keeps : Along Keeps (init (0 - 1) false) (failingOps 0) := by
  apply along_cons (fun _ => ⟨allocEvent_ne_none_iff.mp nofun, nofun⟩) rfl
  apply along_cons (fun _ => ⟨allocEvent_ne_none_iff.mp nofun, nofun⟩) rfl
  refine along_cons ?_ rfl trivial
  rintro ⟨limit, hlimit, hstrands⟩
  cases hlimit
  revert hstrands
  decide

theorem failingOps_zero_usable :
    Along Keeps (init (0 - 1) false) (failingOps 0) ∧
      ∃ r, (init (0 - 1) false).run (failingOps 0) = some r ∧ LastIn r.1.last r.1.events := by
  obtain ⟨r, hrun, hlast, -⟩ := run_keeps_usable (0 - 1) false (failingOps 0) failingOps_zero_keeps
  exact ⟨failingOps_zero_keeps, r, hrun, hlast⟩

theorem failingOps_one_strands :
    ∃ r, (init (0 - 1) false).run (failingOps 1) = some r ∧
      ¬ LastIn r.1.last r.1.events ∧
      (∃ c ∈ r.1.cache, r.1.last = some c.1) ∧
      r.1.step (.queue ⟨3, 16, ⟨8, []⟩⟩ ⟨true, true⟩ ⟨true, true⟩ (failsAt 1)) = none :=
  ⟨_, rfl, by decide, by decide, rfl⟩

end OrderedEvents

end RPerf.Session
