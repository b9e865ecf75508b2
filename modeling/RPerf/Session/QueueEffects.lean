import RPerf.Session.OrderedEvents

/-!
# What the operations of the queue do to its list

On an ordered list whose `last` pointer is good, an insertion puts the new entry at its
stable place, whichever entry the walk starts from.
-/

namespace RPerf.Session

open Lib

theorem OrderedEvent.timestamp_le_iff {e f : OrderedEvent} :
    e.timestamp ≤ f.timestamp ↔ e.time ≤ f.time := UInt64.le_iff_toNat_le

theorem OrderedEvent.timestamp_lt_iff {e f : OrderedEvent} :
    e.timestamp < f.timestamp ↔ e.time < f.time := UInt64.lt_iff_toNat_lt

namespace OrderedEvents

variable {oe' : OrderedEvents} {rest before l done : List OrderedEvent} {ops : List Op}
  {new : OrderedEvent} {P : OrderedEvents → Op → Prop} {a : Addr}

theorem along_cons {oe : OrderedEvents} {op : Op} {r : Int × OrderedEvents} (h : P oe op)
    (hstep : oe.step op = some r) (hrest : Along P r.2 ops) : Along P oe (op :: ops) := by
  refine ⟨h, ?_⟩
  intro r' hr
  cases hstep.symm.trans hr
  exact hrest

theorem Along.mono {Q : OrderedEvents → Op → Prop} (hPQ : ∀ oe op, P oe op → Q oe op)
    {oe : OrderedEvents} (h : Along P oe ops) : Along Q oe ops := by
  induction ops generalizing oe with
  | nil => trivial
  | cons op ops ih => exact ⟨hPQ oe op h.1, fun r hr => ih (h.2 r hr)⟩

/-- A run, then more operations from where it ends. -/
theorem Along.append {ops' : List Op} {oe : OrderedEvents} {r : OrderedEvents × List Item}
    (h : Along P oe ops) (hrun : oe.run ops = some r) (h' : Along P r.1 ops') :
    Along P oe (ops ++ ops') := by
  induction ops generalizing oe r with
  | nil =>
    cases hrun
    exact h'
  | cons op ops ih =>
    refine ⟨h.1, ?_⟩
    intro r₁ hstep
    simp only [run, hstep, Option.map_eq_some_iff] at hrun
    obtain ⟨r₂, hrun, rfl⟩ := hrun
    exact ih (h.2 r₁ hstep) hrun h'

theorem run_append {ops' : List Op} {oe : OrderedEvents} {r r' : OrderedEvents × List Item}
    (hrun : oe.run ops = some r) (hrun' : r.1.run ops' = some r') :
    oe.run (ops ++ ops') = some (r'.1, r.2 ++ r'.2) := by
  induction ops generalizing oe r with
  | nil =>
    cases hrun
    simpa using hrun'
  | cons op ops ih =>
    cases hstep : oe.step op with
    | none => simp [run, hstep] at hrun
    | some r₁ =>
      simp only [run, hstep, Option.map_eq_some_iff] at hrun
      obtain ⟨r₂, hrun, rfl⟩ := hrun
      simp [run, hstep, ih hrun hrun']

theorem locate_append {r : List OrderedEvent × OrderedEvent × List OrderedEvent}
    (h : locate a before l = some r) : r.1.reverse ++ r.2.1 :: r.2.2 = before.reverse ++ l := by
  induction l generalizing before with
  | nil => cases h
  | cons e l ih =>
    rw [locate] at h
    by_cases he : e.addr = a
    · rw [if_pos he] at h
      cases h
      rfl
    · rw [if_neg he] at h
      simpa using ih h

theorem exists_locate (h : ∃ e ∈ l, e.addr = a) : ∃ r, locate a before l = some r := by
  induction l generalizing before with
  | nil => simp at h
  | cons e l ih =>
    rw [locate]
    by_cases he : e.addr = a
    · exact ⟨_, if_pos he⟩
    · rw [if_neg he]
      apply ih
      simpa [he] using h

/-- A cut of the list at the place of `new`. -/
structure Cut (new : OrderedEvent) (l : List OrderedEvent)
    (r : List OrderedEvent × List OrderedEvent) : Prop where
  append : r.1.reverse ++ r.2 = l
  before : ∀ e ∈ r.1, e.time ≤ new.time
  after : ∀ e ∈ r.2.head?, new.time < e.time

theorem Cut.place {r : List OrderedEvent × List OrderedEvent} (h : Cut new l r) :
    r.1.reverse ++ new :: r.2 = place OrderedEvent.time new l := by
  rw [← h.append, place_between _ h.after]
  simpa using h.before

theorem Cut.snd_eq_nil_iff {r : List OrderedEvent × List OrderedEvent} (h : Cut new l r) :
    r.2 = [] ↔ ∀ e ∈ l, e.time ≤ new.time := by
  rw [← h.append]
  constructor
  · intro hnil
    simpa [hnil] using h.before
  · intro hall
    cases hr : r.2 with
    | nil => rfl
    | cons e after =>
      have hlt := h.after e (by simp [hr])
      have hle := hall e (by simp [hr])
      omega

theorem walkNext_cut {after : List OrderedEvent} (h : ∀ e ∈ before, e.time ≤ new.time) :
    Cut new (before.reverse ++ after) (walkNext new.timestamp before after) := by
  induction after generalizing before with
  | nil => exact ⟨rfl, h, by simp [walkNext]⟩
  | cons e after ih =>
    rw [walkNext]
    by_cases he : e.timestamp ≤ new.timestamp
    · rw [if_pos he]
      have hbefore : ∀ x ∈ e :: before, x.time ≤ new.time :=
        List.forall_mem_cons.mpr ⟨OrderedEvent.timestamp_le_iff.mp he, h⟩
      simpa using ih hbefore
    · rw [if_neg he]
      rw [OrderedEvent.timestamp_le_iff, not_le] at he
      exact ⟨rfl, h, by simpa using he⟩

theorem walkPrev_cut {after : List OrderedEvent}
    (hord : Ordered OrderedEvent.time (before.reverse ++ after))
    (h : ∀ e ∈ after.head?, new.time < e.time) :
    Cut new (before.reverse ++ after) (walkPrev new.timestamp before after) := by
  induction before generalizing after with
  | nil => exact ⟨rfl, by simp [walkPrev], h⟩
  | cons e before ih =>
    rw [walkPrev]
    by_cases he : new.timestamp < e.timestamp
    · rw [if_pos he]
      rw [OrderedEvent.timestamp_lt_iff] at he
      have hcut : Cut new (before.reverse ++ e :: after) _ :=
        ih (by simpa using hord) (by simpa using he)
      simpa using hcut
    · rw [if_neg he]
      rw [OrderedEvent.timestamp_lt_iff, not_lt] at he
      refine ⟨rfl, ?_, h⟩
      rw [List.reverse_cons, List.append_assoc, ordered_append] at hord
      intro x hx
      rcases List.mem_cons.mp hx with rfl | hx
      · exact he
      · exact (hord.2.2 x (by simpa using hx) e (by simp)).trans he

def LastIn (last : Option Addr) (events : List OrderedEvent) : Prop :=
  match last with
  | none => events = []
  | some a => ∃ e ∈ events, e.addr = a

instance (last : Option Addr) (events : List OrderedEvent) : Decidable (LastIn last events) :=
  match last with
  | none => inferInstanceAs (Decidable (events = []))
  | some a => inferInstanceAs (Decidable (∃ e ∈ events, e.addr = a))

variable (oe : OrderedEvents)

def inserted (new : OrderedEvent) : OrderedEvents :=
  { oe with
    nrEvents := oe.nrEvents + 1
    last := some new.addr
    events := place OrderedEvent.time new oe.events
    maxTimestamp :=
      if ∀ e ∈ oe.events, e.time ≤ new.time then new.timestamp else oe.maxTimestamp }

theorem queueEvent_eq {oe : OrderedEvents} (new : OrderedEvent)
    (hord : Ordered OrderedEvent.time oe.events) (hlast : LastIn oe.last oe.events) :
    oe.queueEvent new = some (oe.inserted new) := by
  cases hl : oe.last with
  | none =>
    have hnil : oe.events = [] := by simpa [hl, LastIn] using hlast
    simp [queueEvent, inserted, hl, hnil, Lib.place]
  | some a =>
    obtain ⟨⟨before, last, after⟩, hloc⟩ : ∃ r, locate a [] oe.events = some r :=
      exists_locate (by simpa [hl, LastIn] using hlast)
    have happ : before.reverse ++ last :: after = oe.events := by simpa using locate_append hloc
    simp only [queueEvent, hl, hloc]
    by_cases hle : last.timestamp ≤ new.timestamp
    · rw [if_pos hle]
      rw [OrderedEvent.timestamp_le_iff] at hle
      have hbefore : ∀ e ∈ last :: before, e.time ≤ new.time := by
        rw [← happ, ordered_append] at hord
        intro e he
        rcases List.mem_cons.mp he with rfl | he
        · exact hle
        · exact (hord.2.2 e (by simpa using he) last (by simp)).trans hle
      have hcut : Cut new ((last :: before).reverse ++ after) _ := walkNext_cut hbefore
      rw [List.reverse_cons, List.append_assoc, List.singleton_append, happ] at hcut
      have hplace := hcut.place
      have htail := hcut.snd_eq_nil_iff
      rcases hw : walkNext new.timestamp (last :: before) after with ⟨b, _ | ⟨e, a⟩⟩
      · rw [hw] at hplace htail
        simp only [inserted, ← hplace, if_pos (htail.mp rfl)]
      · rw [hw] at hplace htail
        have hlate : ¬ ∀ x ∈ oe.events, x.time ≤ new.time := fun hall => by cases htail.mpr hall
        simp only [inserted, ← hplace, if_neg hlate]
    · rw [if_neg hle]
      rw [OrderedEvent.timestamp_le_iff, not_le] at hle
      have hcut : Cut new oe.events (walkPrev new.timestamp before (last :: after)) :=
        happ ▸ walkPrev_cut (happ ▸ hord) (by simpa using hle)
      have hlate : ¬ ∀ x ∈ oe.events, x.time ≤ new.time := by
        intro hall
        have := hall last (by simp [← happ])
        omega
      simp only [inserted, ← hcut.place, if_neg hlate]

def served (limit : UInt64) (turns : ℕ → Turn) : ℕ → List OrderedEvent → ℕ × Option Int
  | _, [] => (0, none)
  | i, e :: rest =>
    if (turns i).done then (0, some 0)
    else if limit < e.timestamp then (0, none)
    else if (turns i).ret ≠ 0 then (0, some (turns i).ret)
    else ((served limit turns (i + 1) rest).1 + 1, (served limit turns (i + 1) rest).2)

theorem flushLoop_eq (limit : UInt64) (turns : ℕ → Turn) (i : ℕ) (l : List OrderedEvent)
    (oe : OrderedEvents) :
    flushLoop limit turns i l oe =
      ((served limit turns i l).2, (l.take (served limit turns i l).1).foldl deliver oe) := by
  induction l generalizing i oe with
  | nil => rfl
  | cons e rest ih =>
    rw [flushLoop, served]
    split_ifs <;> simp [ih]

/-- Where the loop of a flush stops. -/
structure StopsAt (limit : UInt64) (l : List OrderedEvent) (r : ℕ × Option Int) : Prop where
  within : ∀ e ∈ l.take r.1, e.timestamp ≤ limit
  beyond : r.2 = none → ∀ e ∈ (l.drop r.1).head?, limit < e.timestamp
  early : r.2 ≠ none → l.drop r.1 ≠ []

theorem served_stopsAt (limit : UInt64) (turns : ℕ → Turn) (i : ℕ) (l : List OrderedEvent) :
    StopsAt limit l (served limit turns i l) := by
  induction l generalizing i with
  | nil => exact ⟨by simp, by simp [served], by simp [served]⟩
  | cons e rest ih =>
    rw [served]
    by_cases hdone : (turns i).done = true
    · rw [if_pos hdone]
      exact ⟨by simp, nofun, by simp⟩
    rw [if_neg hdone]
    by_cases hlt : limit < e.timestamp
    · rw [if_pos hlt]
      exact ⟨by simp, by simpa using hlt, by simp⟩
    rw [if_neg hlt]
    by_cases hret : (turns i).ret ≠ 0
    · rw [if_pos hret]
      exact ⟨by simp, nofun, by simp⟩
    rw [if_neg hret]
    obtain ⟨hwithin, hbeyond, hearly⟩ := ih (i + 1)
    refine ⟨?_, by simpa using hbeyond, by simpa using hearly⟩
    rw [List.take_succ_cons, List.forall_mem_cons]
    exact ⟨UInt64.not_lt.mp hlt, hwithin⟩

/-- `deliver` takes every entry and the session goes on. -/
def Obliging (turns : ℕ → Turn) : Prop := ∀ i, turns i = ⟨false, 0⟩

theorem served_of_obliging {turns : ℕ → Turn} (h : Obliging turns) (limit : UInt64) (i : ℕ)
    (l : List OrderedEvent) : (served limit turns i l).2 = none := by
  induction l generalizing i with
  | nil => rfl
  | cons e rest ih =>
    simp only [served, h i, Bool.false_eq_true, if_false, ne_eq, not_true]
    by_cases hlt : limit < e.timestamp
    · rw [if_pos hlt]
    · rw [if_neg hlt]
      exact ih (i + 1)

structure Drained (oe oe' : OrderedEvents) (done rest : List OrderedEvent) : Prop where
  split : oe.events = done ++ rest
  events : oe'.events = rest
  delivered : oe'.delivered = oe.delivered ++ done
  nrEvents : oe'.nrEvents = oe.nrEvents - UInt32.ofNat done.length
  cache : oe'.cache = done.reverse.map (fun e => (e.addr, e.timestamp)) ++ oe.cache
  lastFlush : oe'.lastFlush = (done.getLast?.map (·.timestamp)).getD oe.lastFlush
  maxTimestamp : oe'.maxTimestamp = oe.maxTimestamp
  blocks : oe'.blocks = oe.blocks
  buffer : oe'.buffer = oe.buffer
  bufferIdx : oe'.bufferIdx = oe.bufferIdx
  nrUnorderedEvents : oe'.nrUnorderedEvents = oe.nrUnorderedEvents

theorem Drained.refl : Drained oe oe [] oe.events := by
  constructor <;> simp

theorem Drained.trans {oe oe'' : OrderedEvents} {done' rest' : List OrderedEvent}
    (h : Drained oe oe' done rest) (h' : Drained oe' oe'' done' rest') :
    Drained oe oe'' (done ++ done') rest' where
  split := by rw [List.append_assoc, h.split, ← h.events, h'.split]
  events := h'.events
  delivered := by rw [h'.delivered, h.delivered, List.append_assoc]
  nrEvents := by
    rw [h'.nrEvents, h.nrEvents, List.length_append, UInt32.ofNat_add]
    grind
  cache := by simp [h'.cache, h.cache]
  lastFlush := by
    rw [h'.lastFlush, h.lastFlush, List.getLast?_append]
    cases done'.getLast? <;> rfl
  maxTimestamp := h'.maxTimestamp.trans h.maxTimestamp
  blocks := h'.blocks.trans h.blocks
  buffer := h'.buffer.trans h.buffer
  bufferIdx := h'.bufferIdx.trans h.bufferIdx
  nrUnorderedEvents := h'.nrUnorderedEvents.trans h.nrUnorderedEvents

theorem drained_deliver {oe : OrderedEvents} {e : OrderedEvent} (h : oe.events = e :: rest) :
    Drained oe (oe.deliver e) [e] rest := by
  have hfree : ∀ oe' : OrderedEvents, Drained oe { oe' with
      lastFlush := e.timestamp, delivered := oe.delivered ++ [e] } [e] rest →
      Drained oe { oe'.freeDupEvent e.event with
        lastFlush := e.timestamp, delivered := oe.delivered ++ [e] } [e] rest := by
    intro oe' hd
    rw [freeDupEvent]
    split
    · exact { hd with }
    · exact hd
  apply hfree
  constructor <;> simp [h]

theorem drained_foldl {oe : OrderedEvents} (h : oe.events = done ++ rest) :
    Drained oe (done.foldl deliver oe) done rest := by
  induction done generalizing oe with
  | nil => simpa [h] using Drained.refl oe
  | cons e done ih =>
    have hhead := drained_deliver (h : oe.events = e :: (done ++ rest))
    exact hhead.trans (ih hhead.events)

def StrandsAt (limit : UInt64) (turns : ℕ → Turn) : Prop :=
  (served limit turns 0 oe.events).2 ≠ none ∧
    ∃ e ∈ oe.events.take (served limit turns 0 oe.events).1, oe.last = some e.addr

instance (oe : OrderedEvents) (limit : UInt64) (turns : ℕ → Turn) :
    Decidable (oe.StrandsAt limit turns) := inferInstanceAs (Decidable (_ ∧ _))

/-- What a flush up to `limit` has done. -/
structure FlushedTo (limit : UInt64) (turns : ℕ → Turn) (oe oe' : OrderedEvents)
    (done rest : List OrderedEvent) : Prop extends Drained oe oe' done rest where
  within : ∀ e ∈ done, e.timestamp ≤ limit
  beyond : Obliging turns → limit ≠ 0 → ∀ e ∈ rest.head?, limit < e.timestamp
  lastIn : LastIn oe.last oe.events → ¬ oe.StrandsAt limit turns → LastIn oe'.last rest

theorem timestampAt_mem {oe : OrderedEvents} (h : ∃ e ∈ oe.events, e.addr = a) :
    ∃ e ∈ oe.events, e.addr = a ∧ oe.timestampAt a = e.timestamp := by
  cases hf : oe.events.find? (·.addr = a) with
  | none =>
    obtain ⟨e, he, ha⟩ := h
    simpa [ha] using List.find?_eq_none.mp hf e he
  | some e =>
    exact ⟨e, List.mem_of_find?_eq_some hf, by simpa using List.find?_some hf,
      by simp [timestampAt, hf]⟩

theorem foldl_deliver_last (done : List OrderedEvent) (oe : OrderedEvents) :
    (done.foldl deliver oe).last = oe.last := by
  induction done generalizing oe with
  | nil => rfl
  | cons e done ih =>
    rw [List.foldl_cons, ih, deliver, delete, freeDupEvent]
    split <;> rfl

theorem Drained.repairLast {oe : OrderedEvents} (h : Drained oe oe' done rest)
    (lastTs limit : UInt64) : Drained oe (oe'.repairLast lastTs limit) done rest := by
  rw [OrderedEvents.repairLast]
  split
  · exact { h with }
  · split
    · exact { h with }
    · exact h

theorem lastIn_repairLast {oe : OrderedEvents} {limit : UInt64} (h : Drained oe oe' done rest)
    (hwithin : ∀ e ∈ done, e.timestamp ≤ limit) (hlast : oe'.last = oe.last)
    (hin : LastIn oe.last oe.events) :
    LastIn (oe'.repairLast ((oe.last.map oe.timestampAt).getD 0) limit).last rest := by
  rw [repairLast, h.events]
  cases htail : rest.getLast? with
  | none => exact List.getLast?_eq_none_iff.mp htail
  | some tail =>
    have htail := List.mem_of_getLast? htail
    by_cases hle : (oe.last.map oe.timestampAt).getD 0 ≤ limit
    · simp only [if_pos hle]
      exact ⟨tail, htail, rfl⟩
    · simp only [if_neg hle, hlast]
      cases hl : oe.last with
      | none => simp [hl] at hle
      | some a =>
        obtain ⟨e, he, ha, hts⟩ := timestampAt_mem (by simpa [hl, LastIn] using hin)
        rw [h.split, List.mem_append] at he
        rcases he with he | he
        · exact absurd (hts ▸ hwithin e he) (by simpa [hl] using hle)
        · exact ⟨e, he, ha⟩

theorem flushTo_eq {oe : OrderedEvents} (hlimit : oe.nextFlush ≠ 0) (turns : ℕ → Turn) :
    (oe.flushTo turns).2 =
      let r := served oe.nextFlush turns 0 oe.events
      let drained := (oe.events.take r.1).foldl deliver oe
      if r.2 = none then
        drained.repairLast ((oe.last.map oe.timestampAt).getD 0) oe.nextFlush
      else drained := by
  rw [flushTo, if_neg hlimit, flushLoop_eq]
  cases hr : (served oe.nextFlush turns 0 oe.events).2 with
  | none => simp [hr]
  | some ret => simp [hr]

theorem flushTo_flushed (turns : ℕ → Turn) :
    ∃ done rest, FlushedTo oe.nextFlush turns oe (oe.flushTo turns).2 done rest := by
  by_cases hzero : oe.nextFlush = 0
  · refine ⟨[], oe.events, ?_⟩
    rw [flushTo, if_pos hzero]
    exact ⟨Drained.refl oe, by simp, fun _ h => absurd hzero h, fun h _ => h⟩
  have hstop := served_stopsAt oe.nextFlush turns 0 oe.events
  have heq := flushTo_eq hzero turns
  set r := served oe.nextFlush turns 0 oe.events with hr
  have hdrain : Drained oe ((oe.events.take r.1).foldl deliver oe)
      (oe.events.take r.1) (oe.events.drop r.1) := drained_foldl (List.take_append_drop _ _).symm
  have hlast := foldl_deliver_last (oe.events.take r.1) oe
  refine ⟨oe.events.take r.1, oe.events.drop r.1, ?_⟩
  rw [heq]
  by_cases hret : r.2 = none
  · simp only [hret, if_true]
    exact ⟨hdrain.repairLast _ _, hstop.within, fun _ _ => hstop.beyond hret,
      fun hin _ => lastIn_repairLast hdrain hstop.within hlast hin⟩
  · simp only [hret, if_false]
    refine ⟨hdrain, hstop.within, fun hob _ => absurd (served_of_obliging hob _ _ _) hret, ?_⟩
    intro hin hstrand
    rw [hlast]
    cases hl : oe.last with
    | none =>
      have hnil : oe.events = [] := by simpa [hl, LastIn] using hin
      simp [LastIn, hnil]
    | some a =>
      obtain ⟨e, he, ha⟩ : ∃ e ∈ oe.events, e.addr = a := by simpa [hl, LastIn] using hin
      rw [hdrain.split, List.mem_append] at he
      rcases he with he | he
      · exact absurd ⟨hret, e, he, by rw [hl, ha]⟩ hstrand
      · exact ⟨e, he, ha⟩

def limitOf (how : OeFlush) : Option UInt64 :=
  if oe.nrEvents = 0 then none else oe.limitFor how

theorem flush_of_limit_none {oe : OrderedEvents} {how : OeFlush} (h : oe.limitOf how = none)
    (turns : ℕ → Turn) : oe.flush how turns = (0, oe) := by
  rw [limitOf] at h
  by_cases hnr : oe.nrEvents = 0
  · simp [flush, hnr]
  · rw [if_neg hnr] at h
    simp [flush, hnr, h]

theorem flush_flushed {oe : OrderedEvents} {how : OeFlush} {limit : UInt64}
    (h : oe.limitOf how = some limit) (turns : ℕ → Turn) :
    ∃ done rest, FlushedTo limit turns oe (oe.flush how turns).2 done rest := by
  rw [limitOf] at h
  by_cases hnr : oe.nrEvents = 0
  · simp [hnr] at h
  rw [if_neg hnr] at h
  obtain ⟨done, rest, hf⟩ := flushTo_flushed { oe with nextFlush := limit } turns
  refine ⟨done, rest, ?_⟩
  simp only [flush, if_neg hnr, h]
  split
  · exact { hf with }
  · exact { hf with }

structure SameList (oe oe' : OrderedEvents) : Prop where
  events : oe'.events = oe.events
  delivered : oe'.delivered = oe.delivered
  last : oe'.last = oe.last
  nrEvents : oe'.nrEvents = oe.nrEvents
  lastFlush : oe'.lastFlush = oe.lastFlush
  nextFlush : oe'.nextFlush = oe.nextFlush
  maxTimestamp : oe'.maxTimestamp = oe.maxTimestamp
  nrUnorderedEvents : oe'.nrUnorderedEvents = oe.nrUnorderedEvents

theorem SameList.refl : SameList oe oe := by constructor <;> rfl

theorem sameList_dupEvent {oe : OrderedEvents} {event : PerfEvent} {memdup : Bool}
    (h : oe.dupEvent event memdup = some oe') : SameList oe oe' := by
  rw [dupEvent] at h
  split_ifs at h <;> cases h <;> constructor <;> rfl

theorem SameList.freeDupEvent {oe : OrderedEvents} (h : SameList oe oe') (event : PerfEvent) :
    SameList oe (oe'.freeDupEvent event) := by
  rw [OrderedEvents.freeDupEvent]
  split
  · exact { h with }
  · exact h

inductive Allocated (oe : OrderedEvents) (event : PerfEvent) (memdup : Bool) :
    Option Addr → OrderedEvents → Prop
  | noCopy : oe.dupEvent event memdup = none → Allocated oe event memdup none oe
  | cached {oe₁ : OrderedEvents} {entry : Addr × UInt64} {cache : List (Addr × UInt64)} :
    oe.dupEvent event memdup = some oe₁ → oe₁.cache = entry :: cache →
    Allocated oe event memdup (some entry.1) { oe₁ with cache }
  | buffered {oe₁ : OrderedEvents} {block : ℕ} {buffer : Option ℕ} :
    oe.dupEvent event memdup = some oe₁ → oe₁.buffer = some block → (∀ b ∈ buffer, b = block) →
    Allocated oe event memdup (some ⟨block, oe₁.bufferIdx⟩)
      { oe₁ with bufferIdx := oe₁.bufferIdx + 1, buffer }
  | block {oe₁ : OrderedEvents} : oe.dupEvent event memdup = some oe₁ →
    Allocated oe event memdup (some ⟨oe₁.blocks, 1⟩)
      { oe₁ with
        curAllocSize := oe₁.curAllocSize + UInt64.ofNat (maxSampleBuffer * entrySize)
        blocks := oe₁.blocks + 1
        buffer := some oe₁.blocks
        bufferIdx := 2 }
  | noBlock {oe₁ : OrderedEvents} : oe.dupEvent event memdup = some oe₁ →
    Allocated oe event memdup none (oe₁.freeDupEvent event)

theorem allocEvent_cases {oe : OrderedEvents} {event : PerfEvent} {mem : Memory} {a : Option Addr}
    (h : oe.allocEvent event mem = some (a, oe')) : Allocated oe event mem.memdup a oe' := by
  rw [allocEvent] at h
  cases hdup : oe.dupEvent event mem.memdup with
  | none =>
    simp only [hdup, Option.some.injEq, Prod.mk.injEq] at h
    obtain ⟨rfl, rfl⟩ := h
    exact .noCopy hdup
  | some oe₁ =>
    simp only [hdup] at h
    split at h
    · next hcache =>
      obtain ⟨rfl, rfl⟩ := Prod.mk.inj (Option.some.inj h)
      exact .cached hdup hcache
    · next hbuf =>
      obtain ⟨rfl, rfl⟩ := Prod.mk.inj (Option.some.inj h)
      exact .buffered hdup hbuf (by simp)
    · by_cases hsize : oe₁.curAllocSize < oe₁.maxAllocSize
      · rw [if_pos hsize] at h
        by_cases hmalloc : mem.malloc = true
        · rw [if_pos hmalloc] at h
          obtain ⟨rfl, rfl⟩ := Prod.mk.inj (Option.some.inj h)
          exact .block hdup
        · rw [if_neg hmalloc] at h
          obtain ⟨rfl, rfl⟩ := Prod.mk.inj (Option.some.inj h)
          exact .noBlock hdup
      · rw [if_neg hsize] at h
        cases h

theorem sameList_allocEvent {oe : OrderedEvents} {event : PerfEvent} {mem : Memory}
    {a : Option Addr} (h : oe.allocEvent event mem = some (a, oe')) : SameList oe oe' := by
  cases allocEvent_cases h with
  | noCopy => exact SameList.refl _
  | cached hdup => exact { sameList_dupEvent hdup with }
  | buffered hdup => exact { sameList_dupEvent hdup with }
  | block hdup =>
    have hsame := sameList_dupEvent hdup
    exact ⟨hsame.events, hsame.delivered, hsame.last, hsame.nrEvents, hsame.lastFlush,
      hsame.nextFlush, hsame.maxTimestamp, hsame.nrUnorderedEvents⟩
  | noBlock hdup => exact (sameList_dupEvent hdup).freeDupEvent event

end OrderedEvents

end RPerf.Session
