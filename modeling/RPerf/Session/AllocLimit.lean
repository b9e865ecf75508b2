import RPerf.Session.FailingFlush

/-!
# The allocation limit of the queue

`oe->cur_alloc_size` counts the blocks of entries and, with `copy_on_queue`, the copies that
are on the list.
-/

namespace RPerf.Session

open Lib

namespace OrderedEvents

/-- What one event costs. -/
def cost (copy : Bool) (event : PerfEvent) : ℕ := if copy then event.size.toNat else 0

def copies (copy : Bool) (l : List OrderedEvent) : ℕ := (l.map fun e => cost copy e.event).sum

/-- The bytes of a block. -/
def blockSize : ℕ := maxSampleBuffer * entrySize

structure Balanced (copy : Bool) (n : ℕ) (oe : OrderedEvents) : Prop where
  copyOnQueue : oe.copyOnQueue = copy
  size : oe.curAllocSize = UInt64.ofNat (oe.blocks * blockSize + n)

namespace Balanced

variable {copy : Bool} {n : ℕ} {oe oe' : OrderedEvents} {event : PerfEvent}

theorem toUInt64_size (event : PerfEvent) :
    event.size.toUInt64 = UInt64.ofNat event.size.toNat := by
  simp

theorem dupEvent {memdup : Bool} (h : Balanced copy n oe)
    (hdup : oe.dupEvent event memdup = some oe') : Balanced copy (n + cost copy event) oe' := by
  obtain ⟨rfl, hsize⟩ := h
  rw [OrderedEvents.dupEvent] at hdup
  by_cases hcopy : oe.copyOnQueue = true
  · rw [if_pos hcopy] at hdup
    split_ifs at hdup
    cases hdup
    refine ⟨rfl, ?_⟩
    rw [cost, if_pos hcopy, hsize, toUInt64_size, ← UInt64.ofNat_add, Nat.add_assoc]
  · rw [if_neg hcopy] at hdup
    cases hdup
    exact ⟨rfl, by rw [cost, if_neg hcopy]; exact hsize⟩

theorem freeDupEvent (h : Balanced copy (n + cost copy event) oe) :
    Balanced copy n (oe.freeDupEvent event) := by
  obtain ⟨rfl, hsize⟩ := h
  rw [OrderedEvents.freeDupEvent]
  by_cases hcopy : oe.copyOnQueue = true
  · rw [if_pos hcopy]
    refine ⟨rfl, ?_⟩
    rw [cost, if_pos hcopy] at hsize
    rw [hsize, toUInt64_size, ← Nat.add_assoc, UInt64.ofNat_add, UInt64.add_sub_cancel]
  · rw [if_neg hcopy]
    rw [cost, if_neg hcopy] at hsize
    exact ⟨rfl, hsize⟩

theorem allocEvent {mem : Memory} {a : Option Addr} (h : Balanced copy n oe)
    (halloc : oe.allocEvent event mem = some (a, oe')) :
    Balanced copy (n + if a.isSome then cost copy event else 0) oe' := by
  cases allocEvent_cases halloc with
  | noCopy => exact h
  | cached hdup => exact { h.dupEvent hdup with }
  | buffered hdup => exact { h.dupEvent hdup with }
  | block hdup =>
    have h₁ := h.dupEvent hdup
    refine ⟨h₁.copyOnQueue, ?_⟩
    dsimp only
    rw [h₁.size, ← UInt64.ofNat_add, blockSize, Option.isSome_some, if_pos rfl, Nat.add_mul,
      Nat.one_mul, Nat.add_right_comm]
  | noBlock hdup => exact (h.dupEvent hdup).freeDupEvent

theorem deliver {e : OrderedEvent} (h : Balanced copy (n + cost copy e.event) oe) :
    Balanced copy n (oe.deliver e) := by
  have hdel : Balanced copy n (oe.delete e) := freeDupEvent { h with }
  exact { hdel with }

theorem deliver_all {done : List OrderedEvent} (h : Balanced copy (copies copy done + n) oe) :
    Balanced copy n (done.foldl OrderedEvents.deliver oe) := by
  induction done generalizing oe with
  | nil => simpa [copies] using h
  | cons e done ih =>
    refine ih (deliver ?_)
    rw [copies, List.map_cons, List.sum_cons] at h
    rwa [copies, Nat.add_right_comm, Nat.add_comm _ (cost copy e.event)]

theorem repairLast (h : Balanced copy n oe) (lastTs limit : UInt64) :
    Balanced copy n (oe.repairLast lastTs limit) := by
  rw [OrderedEvents.repairLast]
  split
  · exact { h with }
  · split
    · exact { h with }
    · exact h

end Balanced

theorem copies_append (copy : Bool) (l l' : List OrderedEvent) :
    copies copy (l ++ l') = copies copy l + copies copy l' := by
  rw [copies, List.map_append, List.sum_append, copies, copies]

variable {copy : Bool} {items : List Item} {mem : Memory} {turns : ℕ → Turn}

theorem copies_perm {l l' : List OrderedEvent} (h : l.Perm l') :
    copies copy l = copies copy l' := (h.map _).sum_eq

/-- The account of a whole queue. -/
def Accounted (copy : Bool) (oe : OrderedEvents) : Prop := Balanced copy (copies copy oe.events) oe

theorem Accounted.flushTo {oe : OrderedEvents} (h : Accounted copy oe) (turns : ℕ → Turn) :
    Accounted copy (oe.flushTo turns).2 := by
  by_cases hzero : oe.nextFlush = 0
  · rw [OrderedEvents.flushTo, if_pos hzero]
    exact h
  set k := (served oe.nextFlush turns 0 oe.events).1
  have hdrain : Drained oe ((oe.events.take k).foldl OrderedEvents.deliver oe)
      (oe.events.take k) (oe.events.drop k) := drained_foldl (List.take_append_drop _ _).symm
  have hbal : Balanced copy (copies copy (oe.events.drop k))
      ((oe.events.take k).foldl OrderedEvents.deliver oe) := by
    apply Balanced.deliver_all
    rw [← copies_append, List.take_append_drop]
    exact h
  unfold Accounted
  rw [flushTo_eq hzero turns]
  dsimp only
  split_ifs
  · rw [(hdrain.repairLast _ _).events]
    exact hbal.repairLast _ _
  · rw [hdrain.events]
    exact hbal

theorem Accounted.flush {oe : OrderedEvents} (h : Accounted copy oe) (how : OeFlush)
    (turns : ℕ → Turn) : Accounted copy (oe.flush how turns).2 := by
  by_cases hnr : oe.nrEvents = 0
  · rw [OrderedEvents.flush, if_pos hnr]
    exact h
  cases hlimit : oe.limitFor how with
  | none =>
    rw [OrderedEvents.flush, if_neg hnr, hlimit]
    exact h
  | some nextFlush =>
    have hnext : Accounted copy { oe with nextFlush } := ⟨h.copyOnQueue, h.size⟩
    have hto := hnext.flushTo turns
    simp only [OrderedEvents.flush, if_neg hnr, hlimit]
    split_ifs
    · exact ⟨hto.copyOnQueue, hto.size⟩
    · exact ⟨hto.copyOnQueue, hto.size⟩
    · exact hto

structure Halved (oe : OrderedEvents) (done rest : List OrderedEvent) : Prop where
  split : oe.events = done ++ rest
  half : ∀ first ∈ oe.events.head?, ∀ last ∈ oe.events, oe.last = some last.addr →
    (∀ e ∈ done, e.time ≤ first.time + (last.time - first.time) / 2) ∧
      ∀ e ∈ rest, first.time + (last.time - first.time) / 2 < e.time

theorem timestampAt_of_mem {oe : OrderedEvents} (hnodup : (oe.events.map OrderedEvent.addr).Nodup)
    {e : OrderedEvent} (he : e ∈ oe.events) : oe.timestampAt e.addr = e.timestamp := by
  obtain ⟨e', he', haddr, hts⟩ := timestampAt_mem ⟨e, he, rfl⟩
  rw [hts, List.inj_on_of_nodup_map hnodup he' he haddr]

theorem half_toNat {a b : UInt64} (h : a ≤ b) :
    (a + (b - a) / 2).toNat = a.toNat + (b.toNat - a.toNat) / 2 := by
  have hle := UInt64.le_iff_toNat_le.mp h
  have hlt := b.toNat_lt
  rw [UInt64.toNat_add, UInt64.toNat_div, UInt64.toNat_sub_of_le _ _ h]
  exact Nat.mod_eq_of_lt (by simp only [UInt64.toNat_ofNat, Nat.reducePow, Nat.reduceMod]; omega)

theorem Sound.nrEvents_ne_zero {oe : OrderedEvents} (h : Sound oe)
    (hlen : oe.events.length < 2 ^ 32) (hne : oe.events ≠ []) : oe.nrEvents ≠ 0 := by
  rw [h.counted]
  intro hzero
  have hnat := congrArg UInt32.toNat hzero
  rw [UInt32.toNat_ofNat', Nat.mod_eq_of_lt hlen] at hnat
  exact hne (List.length_eq_zero_iff.mp hnat)

theorem Sound.last_mem {oe : OrderedEvents} (h : Sound oe) {first : OrderedEvent}
    {l : List OrderedEvent} (hev : oe.events = first :: l) :
    ∃ last ∈ oe.events, oe.last = some last.addr ∧ first.time ≤ last.time := by
  obtain ⟨last, hlast, hptr⟩ : ∃ last ∈ oe.events, oe.last = some last.addr := by
    have hin := h.lastIn
    cases hl : oe.last with
    | none => simp [hl, LastIn, hev] at hin
    | some a =>
      obtain ⟨e, he, rfl⟩ : ∃ e ∈ oe.events, e.addr = a := by simpa [hl, LastIn] using hin
      exact ⟨e, he, rfl⟩
  refine ⟨last, hlast, hptr, ?_⟩
  have hord := h.ordered
  rw [hev] at hord hlast
  rcases List.mem_cons.mp hlast with rfl | hin
  · exact le_rfl
  · exact (List.pairwise_cons.mp hord).1 last hin

theorem Usable.halved {oe : OrderedEvents} (h : Usable oe items) (hob : Obliging turns)
    (hlen : oe.events.length < 2 ^ 32) (hts : ∀ e ∈ oe.events, ¬ refuses e.timestamp) :
    ∃ done rest, Drained oe (oe.flush .half turns).2 done rest ∧ Halved oe done rest := by
  cases hev : oe.events with
  | nil =>
    have hnr : oe.nrEvents = 0 := by rw [h.counted, hev]; rfl
    have hflush : oe.flush .half turns = (0, oe) := by simp [OrderedEvents.flush, hnr]
    refine ⟨[], [], ?_, hev, by simp [hev]⟩
    rw [hflush]
    simpa [hev] using Drained.refl oe
  | cons first l =>
    have hnodup : (oe.events.map OrderedEvent.addr).Nodup := (List.nodup_append.mp h.owns.nodup).1
    have hnr := h.nrEvents_ne_zero hlen (by simp [hev])
    obtain ⟨last, hlast, hptr, hfirst⟩ := h.last_mem hev
    set limit := first.timestamp + (last.timestamp - first.timestamp) / 2
    have hlimit : limit.toNat = first.time + (last.time - first.time) / 2 :=
      half_toNat (OrderedEvent.timestamp_le_iff.mpr hfirst)
    have hne : limit ≠ 0 := by
      intro hzero
      have hpos : first.timestamp.toNat ≠ 0 := fun h0 =>
        hts first (by simp [hev]) (.inl (UInt64.toNat_inj.mp h0))
      have : limit.toNat = 0 := by rw [hzero]; rfl
      have hf : first.time = first.timestamp.toNat := rfl
      omega
    have hof : oe.limitOf .half = some limit := by
      simp only [limitOf, if_neg hnr, limitFor, hev, List.head?_cons, hptr,
        timestampAt_of_mem hnodup hlast]
      rfl
    obtain ⟨done, rest, hf⟩ := flush_flushed hof turns
    refine ⟨done, rest, hf.toDrained, hf.split, ?_⟩
    intro first' hfirst' last' hlast' hptr'
    obtain rfl : first = first' := by simpa [hev] using hfirst'
    obtain rfl : last = last' :=
      List.inj_on_of_nodup_map hnodup hlast hlast' (Option.some.inj (hptr.symm.trans hptr'))
    rw [← hlimit]
    refine ⟨fun e he => UInt64.le_iff_toNat_le.mp (hf.within e he), ?_⟩
    have hord := h.ordered
    rw [hf.split, ordered_append] at hord
    intro e he
    obtain ⟨x, rest', rfl⟩ := List.exists_cons_of_ne_nil (List.ne_nil_of_mem he)
    have hx : limit.toNat < x.time :=
      UInt64.lt_iff_toNat_lt.mp (hf.beyond hob hne x (by simp))
    rcases List.mem_cons.mp he with rfl | he
    · exact hx
    · exact hx.trans_le ((List.pairwise_cons.mp hord.2.1).1 e he)

/-- What `ordered_events__queue` has done with an item. -/
inductive Queued (oe : OrderedEvents) (item : Item) (first : Memory) : Int × OrderedEvents → Prop
  | refused : refuses item.timestamp → Queued oe item first (etime, oe)
  | inserted {oe' : OrderedEvents} {addr : Addr} :
    (oe.countUnordered item.timestamp).Allocates item.event first →
    oe'.events = place OrderedEvent.time { toItem := item, addr } oe.events →
    oe'.delivered = oe.delivered → Queued oe item first (0, oe')
  | halved {oe' : OrderedEvents} {done rest : List OrderedEvent} {ret : Int} :
    ¬ (oe.countUnordered item.timestamp).Allocates item.event first → Halved oe done rest →
    oe'.delivered = oe.delivered ++ done →
    (ret = 0 ∧ ∃ addr, oe'.events = place OrderedEvent.time { toItem := item, addr } rest) ∨
      (ret = enomem ∧ oe'.events = rest) →
    Queued oe item first (ret, oe')

structure Settled (copy : Bool) (oe : OrderedEvents) (items : List Item) : Prop
    extends Usable oe items where
  times : ∀ e ∈ oe.events, ¬ refuses e.timestamp
  account : Accounted copy oe

theorem settled_init (maxAllocSize : UInt64) (copyOnQueue : Bool) :
    Settled copyOnQueue (init maxAllocSize copyOnQueue) [] :=
  ⟨usable_init .., nofun, rfl, by simp [init, copies]⟩

theorem Settled.countUnordered {oe : OrderedEvents} (h : Settled copy oe items)
    (timestamp : UInt64) :
    Settled copy (oe.countUnordered timestamp) items := by
  refine ⟨h.toUsable.countUnordered timestamp, ?_, ?_⟩
  · rw [OrderedEvents.countUnordered]
    split <;> exact h.times
  · rw [OrderedEvents.countUnordered]
    split
    · exact ⟨h.account.copyOnQueue, h.account.size⟩
    · exact h.account

theorem Settled.newEvent {oe : OrderedEvents} {item : Item} (h : Settled copy oe items)
    (hts : ¬ refuses item.timestamp) (hroom : oe.Obtains item.event mem) :
    ∃ ok oe', oe.newEvent item mem = some (ok, oe') ∧
      Settled copy oe' (items ++ if ok then [item] else []) ∧
      oe'.delivered = oe.delivered ∧ (ok = true ↔ oe.Allocates item.event mem) ∧
      if ok then ∃ addr, oe'.events = place OrderedEvent.time { toItem := item, addr } oe.events
      else SameList oe oe' := by
  have hne := allocEvent_ne_none_iff.mpr hroom
  obtain ⟨ok, oe', hnew, husable⟩ := h.toUsable.newEvent hne
  obtain ⟨⟨a, oe₁⟩, halloc⟩ := Option.ne_none_iff_exists'.mp hne
  have hsame := sameList_allocEvent halloc
  have hbal := Balanced.allocEvent h.account halloc
  cases a with
  | none =>
    simp only [OrderedEvents.newEvent, halloc, Option.some.injEq, Prod.mk.injEq] at hnew
    obtain ⟨rfl, rfl⟩ := hnew
    refine ⟨false, oe₁, by simp [OrderedEvents.newEvent, halloc],
      ⟨husable, hsame.events ▸ h.times, ?_⟩, hsame.delivered, ?_, hsame⟩
    · rw [Accounted, hsame.events]
      exact hbal
    · simp [Allocates, halloc]
  | some a =>
    have hqueue := (h.toSound.congr hsame).queueEvent { toItem := item, addr := a }
    simp only [OrderedEvents.newEvent, halloc, hqueue, Option.map_some, Option.some.injEq,
      Prod.mk.injEq] at hnew
    obtain ⟨rfl, rfl⟩ := hnew
    have hevents : (oe₁.inserted { toItem := item, addr := a }).events =
        place OrderedEvent.time { toItem := item, addr := a } oe.events := by
      rw [OrderedEvents.inserted, hsame.events]
    refine ⟨true, _, by simp [OrderedEvents.newEvent, halloc, hqueue], ⟨husable, ?_, ?_⟩,
      hsame.delivered, by simp [Allocates, halloc], a, hevents⟩
    · rw [hevents]
      intro e he
      rcases mem_place.mp he with rfl | he
      · exact hts
      · exact h.times e he
    · rw [Accounted, hevents, copies_perm (place_perm _ _), copies, List.map_cons, List.sum_cons,
        Nat.add_comm]
      exact ⟨hbal.copyOnQueue, hbal.size⟩

theorem Settled.flush {oe : OrderedEvents} (h : Settled copy oe items) (hob : Obliging turns)
    (how : OeFlush) : Settled copy (oe.flush how turns).2 items := by
  have hkeep := not_strands_of_obliging hob oe how
  obtain ⟨done, rest, hd, -⟩ := h.toSound.flush hkeep
  refine ⟨h.toUsable.flush hkeep, ?_, h.account.flush how turns⟩
  rw [hd.events]
  exact fun e he => h.times e (hd.split ▸ List.mem_append_right done he)

theorem Halved.congr {oe oe' : OrderedEvents} {done rest : List OrderedEvent}
    (h : Halved oe' done rest) (hevents : oe'.events = oe.events) (hlast : oe'.last = oe.last) :
    Halved oe done rest := by
  obtain ⟨hsplit, hhalf⟩ := h
  rw [hevents] at hsplit
  rw [hevents, hlast] at hhalf
  exact ⟨hsplit, hhalf⟩

theorem countUnordered_list (oe : OrderedEvents) (timestamp : UInt64) :
    (oe.countUnordered timestamp).events = oe.events ∧
      (oe.countUnordered timestamp).delivered = oe.delivered ∧
      (oe.countUnordered timestamp).last = oe.last := by
  rw [OrderedEvents.countUnordered]
  split <;> exact ⟨rfl, rfl, rfl⟩

/-- Everything is delivered, and an entry that is asked for is there. -/
def Roomy (oe : OrderedEvents) : Op → Prop
  | .flush _ turns => Obliging turns
  | .queue item first second turns =>
    Obliging turns ∧ (¬ refuses item.timestamp → oe.events.length < 2 ^ 32 ∧
      oe.Obtains item.event first ∧
      (oe.events = [] → ¬ oe.Allocates item.event first → oe.Obtains item.event second))

theorem allocEvent_countUnordered (oe : OrderedEvents) (timestamp : UInt64) (event : PerfEvent)
    (mem : Memory) :
    ((oe.countUnordered timestamp).allocEvent event mem).map Prod.fst =
      (oe.allocEvent event mem).map Prod.fst := by
  unfold OrderedEvents.countUnordered
  split
  · simp only [OrderedEvents.allocEvent, dupEvent]
    rcases hcache : oe.cache with _ | ⟨⟨a, ts⟩, cache⟩ <;>
      rcases hbuf : oe.buffer with _ | block <;> split_ifs <;> simp_all
  · rfl

theorem obtains_countUnordered {oe : OrderedEvents} (timestamp : UInt64) {event : PerfEvent} :
    (oe.countUnordered timestamp).Obtains event mem ↔ oe.Obtains event mem := by
  have hmap := allocEvent_countUnordered oe timestamp event mem
  rw [← allocEvent_ne_none_iff, ← allocEvent_ne_none_iff, ne_eq, ne_eq,
    ← Option.map_eq_none_iff (f := Prod.fst), hmap, Option.map_eq_none_iff]

theorem allocates_countUnordered {oe : OrderedEvents} {timestamp : UInt64} {event : PerfEvent} :
    (oe.countUnordered timestamp).Allocates event mem ↔ oe.Allocates event mem := by
  have hiff : ∀ oe : OrderedEvents, oe.Allocates event mem ↔
      ∃ a, (oe.allocEvent event mem).map Prod.fst = some (some a) := by
    intro oe
    simp [Allocates]
  rw [hiff, hiff, allocEvent_countUnordered]

theorem eq_of_allocEvent_none {oe oe' : OrderedEvents} {event : PerfEvent}
    (h : oe.allocEvent event mem = some (none, oe')) : oe' = oe := by
  unfold OrderedEvents.allocEvent OrderedEvents.dupEvent at h
  cases hcopy : oe.copyOnQueue with
  | false =>
    rw [hcopy] at h
    simp only [Bool.false_eq_true, if_false, freeDupEvent, hcopy] at h
    split at h
    · simp at h
    · simp at h
    · split_ifs at h
      · simp at h
      · cases h
        rfl
  | true =>
    rw [hcopy] at h
    by_cases hdup : oe.curAllocSize < oe.maxAllocSize ∧ mem.memdup = true
    · simp only [if_true, hdup, and_self, freeDupEvent] at h
      split at h
      · simp at h
      · simp at h
      · split_ifs at h
        · simp at h
        · cases h
          simp only [UInt64.add_sub_cancel, ← hcopy]
    · simp only [if_true, hdup, if_false] at h
      cases h
      rfl

theorem eq_of_newEvent_false {oe oe' : OrderedEvents} {item : Item}
    (h : oe.newEvent item mem = some (false, oe')) : oe' = oe := by
  rw [OrderedEvents.newEvent] at h
  rcases halloc : oe.allocEvent item.event mem with _ | ⟨_ | a, oe₁⟩
  · simp [halloc] at h
  · simp only [halloc, Option.some.injEq, Prod.mk.injEq, true_and] at h
    exact h ▸ eq_of_allocEvent_none halloc
  · simp [halloc] at h

theorem Settled.obtains_halved {oe : OrderedEvents} (h : Settled copy oe items)
    (hob : Obliging turns) (hlen : oe.events.length < 2 ^ 32) {event : PerfEvent}
    (hempty : oe.events = [] → oe.Obtains event mem) :
    (oe.flush .half turns).2.Obtains event mem := by
  cases hev : oe.events with
  | nil =>
    have hnr : oe.nrEvents = 0 := by rw [h.counted, hev]; rfl
    have hflush : oe.flush .half turns = (0, oe) := by simp [OrderedEvents.flush, hnr]
    rw [hflush]
    exact hempty hev
  | cons first l =>
    obtain ⟨last, hlast, hptr, -⟩ := h.toUsable.last_mem hev
    obtain ⟨done, rest, hd, hhalf⟩ := h.toUsable.halved hob hlen h.times
    have hdone : done ≠ [] := by
      rintro rfl
      obtain ⟨-, hrest⟩ := hhalf.half first (by simp [hev]) last hlast hptr
      have hmem : first ∈ rest := by
        have hsplit := hhalf.split
        rw [hev, List.nil_append] at hsplit
        exact hsplit ▸ List.mem_cons_self
      have hlt := hrest first hmem
      omega
    intro oe₁ hdup
    left
    have hcache : oe₁.cache = (oe.flush .half turns).2.cache := by
      unfold OrderedEvents.dupEvent at hdup
      split_ifs at hdup <;> cases hdup <;> rfl
    rw [hcache, hd.cache]
    simp [hdone]

theorem Settled.queue {oe : OrderedEvents} {item : Item} {first second : Memory}
    (h : Settled copy oe items) (hroomy : oe.Roomy (.queue item first second turns)) :
    ∃ r, oe.queue item first second turns = some r ∧ Queued oe item first r ∧
      Settled copy r.2 (items ++ if r.1 = 0 then [item] else []) := by
  obtain ⟨hob, hroom⟩ := hroomy
  by_cases hts : refuses item.timestamp
  · exact ⟨_, queue_refused hts first second turns, .refused hts, by simpa [etime] using h⟩
  obtain ⟨hlen, hfirst, hsecond⟩ := hroom hts
  rw [← obtains_countUnordered item.timestamp] at hfirst
  obtain ⟨hevents, hdelivered, hlast⟩ := countUnordered_list oe item.timestamp
  obtain ⟨ok, oe₁, hnew, h₁, hdel₁, hok, hlist⟩ :=
    (h.countUnordered item.timestamp).newEvent hts hfirst
  cases ok with
  | true =>
    obtain ⟨addr, hplace⟩ := hlist
    refine ⟨(0, oe₁), by simp [OrderedEvents.queue, hts, hnew], ?_, by simpa using h₁⟩
    exact .inserted (hok.mp rfl) (hplace.trans (by rw [hevents])) (hdel₁.trans hdelivered)
  | false =>
    have hsame : SameList (oe.countUnordered item.timestamp) oe₁ := by simpa using hlist
    have hunchanged : oe₁ = oe.countUnordered item.timestamp := eq_of_newEvent_false hnew
    have hnull : ¬ (oe.countUnordered item.timestamp).Allocates item.event first := by
      simpa using hok
    simp only [Bool.false_eq_true, if_false, List.append_nil] at h₁
    have hlen₁ : oe₁.events.length < 2 ^ 32 := by rwa [hsame.events, hevents]
    obtain ⟨done, rest, hd, hhalf⟩ := h₁.toUsable.halved hob hlen₁ h₁.times
    replace hhalf := hhalf.congr (hsame.events.trans hevents) (hsame.last.trans hlast)
    have hroom₂ : (oe₁.flush .half turns).2.Obtains item.event second := by
      apply h₁.obtains_halved hob hlen₁
      intro hnil
      rw [hsame.events, hevents] at hnil
      rw [hunchanged, obtains_countUnordered]
      exact hsecond hnil (mt allocates_countUnordered.mpr hnull)
    obtain ⟨ok, oe₂, hnew₂, h₂, hdel₂, -, hlist₂⟩ :=
      (h₁.flush hob .half).newEvent hts hroom₂
    have hdel : oe₂.delivered = oe.delivered ++ done := by
      rw [hdel₂, hd.delivered, hdel₁, hdelivered]
    cases ok with
    | true =>
      obtain ⟨addr, hplace⟩ := hlist₂
      refine ⟨(0, oe₂), by simp [OrderedEvents.queue, hts, hnew, hnew₂], ?_, by simpa using h₂⟩
      exact .halved hnull hhalf hdel (.inl ⟨rfl, addr, hplace.trans (by rw [hd.events])⟩)
    | false =>
      have hsame₂ : SameList (oe₁.flush .half turns).2 oe₂ := by simpa using hlist₂
      refine ⟨(enomem, oe₂), by simp [OrderedEvents.queue, hts, hnew, hnew₂], ?_,
        by simpa [enomem] using h₂⟩
      exact .halved hnull hhalf hdel (.inr ⟨rfl, hsame₂.events.trans hd.events⟩)

theorem Settled.step {oe : OrderedEvents} {op : Op} (h : Settled copy oe items)
    (hroomy : oe.Roomy op) :
    ∃ r, oe.step op = some r ∧ Settled copy r.2 (items ++ op.queued r.1) := by
  cases op with
  | flush how turns => exact ⟨_, rfl, by simpa [Op.queued] using h.flush hroomy how⟩
  | queue item first second turns =>
    obtain ⟨r, hr, -, h'⟩ := h.queue hroomy
    exact ⟨r, hr, h'⟩

theorem Settled.run {oe : OrderedEvents} {ops : List Op} (h : Settled copy oe items)
    (hroomy : Along Roomy oe ops) : ∃ r, oe.run ops = some r ∧ Settled copy r.1 (items ++ r.2) := by
  induction ops generalizing oe items with
  | nil => exact ⟨(oe, []), rfl, by simpa using h⟩
  | cons op ops ih =>
    obtain ⟨r, hstep, h₁⟩ := h.step hroomy.1
    obtain ⟨r', hrun, h'⟩ := ih h₁ (hroomy.2 r hstep)
    refine ⟨(r'.1, op.queued r.1 ++ r'.2), by simp [OrderedEvents.run, hstep, hrun], ?_⟩
    simpa using h'

theorem Along.split {P : OrderedEvents → Op → Prop} {ops ops' : List Op} {oe : OrderedEvents}
    (h : Along P oe (ops ++ ops')) :
    Along P oe ops ∧ ∀ r, oe.run ops = some r → Along P r.1 ops' := by
  induction ops generalizing oe with
  | nil =>
    refine ⟨trivial, ?_⟩
    rintro _ ⟨⟩
    exact h
  | cons op ops ih =>
    refine ⟨⟨h.1, fun r hr => (ih (h.2 r hr)).1⟩, ?_⟩
    intro r hrun
    cases hstep : oe.step op with
    | none => simp [OrderedEvents.run, hstep] at hrun
    | some r₁ =>
      simp only [OrderedEvents.run, hstep, Option.map_eq_some_iff] at hrun
      obtain ⟨r₂, hrun, rfl⟩ := hrun
      exact (ih (h.2 r₁ hstep)).2 r₂ hrun

/-- In a run that finds an entry whenever it asks for one, every call inserts its item, or delivers
the first half and then inserts the item or leaves the rest as it is. -/
theorem limit_honoured (maxAllocSize : UInt64) (copyOnQueue : Bool) (ops : List Op)
    (hroomy : Along Roomy (init maxAllocSize copyOnQueue) ops) :
    (∃ r, (init maxAllocSize copyOnQueue).run ops = some r ∧ Accounted copyOnQueue r.1) ∧
    ∀ before item first second turns after,
      ops = before ++ .queue item first second turns :: after →
      ∃ oe items r, (init maxAllocSize copyOnQueue).run before = some (oe, items) ∧
        Accounted copyOnQueue oe ∧ oe.queue item first second turns = some r ∧
        Queued oe item first r := by
  have hinit := settled_init maxAllocSize copyOnQueue
  constructor
  · obtain ⟨r, hrun, h⟩ := hinit.run hroomy
    exact ⟨r, hrun, h.account⟩
  · rintro before item first second turns after rfl
    obtain ⟨hbefore, hrest⟩ := Along.split hroomy
    obtain ⟨r, hrun, h⟩ := hinit.run hbefore
    obtain ⟨r', hqueue, hqueued, -⟩ := h.queue (hrest r hrun).1
    exact ⟨r.1, r.2, r', hrun, h.account, hqueue, hqueued⟩

/-- Two items with a limit that leaves room for one copy. -/
def tightOps : List Op :=
  [.queue ⟨1, 0, ⟨8, []⟩⟩ ⟨true, true⟩ ⟨true, true⟩ obliging,
    .queue ⟨2, 8, ⟨8, []⟩⟩ ⟨true, true⟩ ⟨true, true⟩ obliging]

/-- The second item takes the place of the first one, which is delivered. -/
theorem tightOps_honoured :
    ∃ r, (init 65528 true).run tightOps = some r ∧ Accounted true r.1 ∧
      r.1.delivered.map (·.timestamp) = [1] ∧ r.1.events.map (·.timestamp) = [2] ∧
      r.1.curAllocSize = 65528 := by
  have hroomy : Along Roomy (init 65528 true) tightOps := by
    refine along_cons ⟨fun _ => rfl, fun _ => ⟨by decide, ?_, fun _ hnot => ?_⟩⟩ rfl ?_
    · exact allocEvent_ne_none_iff.mp (by decide)
    · exact absurd ⟨_, _, rfl⟩ hnot
    · refine along_cons ⟨fun _ => rfl, fun _ => ⟨by decide, ?_, nofun⟩⟩ rfl trivial
      exact allocEvent_ne_none_iff.mp (by decide)
  obtain ⟨⟨r, hrun, haccount⟩, -⟩ := limit_honoured 65528 true tightOps hroomy
  cases hrun
  exact ⟨_, rfl, haccount, by decide, by decide, by decide⟩

theorem limit_stores_through_null :
    (init 0 false).queue ⟨1, 0, ⟨8, []⟩⟩ ⟨true, true⟩ ⟨true, true⟩ obliging = none := rfl

end OrderedEvents

end RPerf.Session
