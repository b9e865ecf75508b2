import Mathlib.Tactic
import RPerf.Lib.StableOrder

/-!
# The queue of ordered events

`ordered-events.c`: records come in any order, are kept in a list ordered by timestamp, and
are delivered from its front when the queue is flushed.
-/

namespace RPerf.Session

open Lib

structure PerfEvent where
  size : UInt16
  body : List UInt8
  deriving DecidableEq, Repr

/-- The address of a `struct ordered_event`: its block and its index in the block. -/
structure Addr where
  block : ℕ
  idx : ℕ
  deriving DecidableEq, Repr

/-- What a caller queues. -/
structure Item where
  timestamp : UInt64
  fileOffset : UInt64
  event : PerfEvent
  deriving DecidableEq, Repr

/-- `struct ordered_event`, an entry of the list. -/
structure OrderedEvent extends Item where
  addr : Addr
  deriving DecidableEq, Repr

/-- The timestamp as a number. -/
def Item.time (item : Item) : ℕ := item.timestamp.toNat

@[inherit_doc Item.time]
def OrderedEvent.time (e : OrderedEvent) : ℕ := e.toItem.time

/-- `enum oe_flush`. -/
inductive OeFlush
  | none
  | final
  | round
  | half
  deriving DecidableEq, Repr

/-- `struct ordered_events`, with the entries `deliver` took so far. -/
structure OrderedEvents where
  lastFlush : UInt64 := 0
  nextFlush : UInt64 := 0
  maxTimestamp : UInt64 := 0
  maxAllocSize : UInt64
  curAllocSize : UInt64 := 0
  events : List OrderedEvent := []
  cache : List (Addr × UInt64) := []
  /-- The number of blocks on `to_free`, the number of the next block. -/
  blocks : ℕ := 0
  buffer : Option ℕ := none
  bufferIdx : ℕ := 0
  last : Option Addr := none
  nrEvents : UInt32 := 0
  lastFlushType : OeFlush := .none
  nrUnorderedEvents : UInt32 := 0
  copyOnQueue : Bool
  delivered : List OrderedEvent := []
  deriving DecidableEq, Repr

/-- The answers of the allocator in one call of `alloc_event`. -/
structure Memory where
  memdup : Bool
  malloc : Bool
  deriving DecidableEq, Repr

/-- The answers of `session_done` and of `deliver` at one entry of a flush. -/
structure Turn where
  done : Bool
  ret : Int
  deriving DecidableEq, Repr

def entrySize : ℕ := 40

/-- `MAX_SAMPLE_BUFFER`. -/
def maxSampleBuffer : ℕ := 64 * 1024 / entrySize

namespace OrderedEvents

/-- `ordered_events__init` on zeroed memory, and the two settings. -/
def init (maxAllocSize : UInt64) (copyOnQueue : Bool) : OrderedEvents :=
  { maxAllocSize, copyOnQueue }

def locate (a : Addr) (before : List OrderedEvent) :
    List OrderedEvent → Option (List OrderedEvent × OrderedEvent × List OrderedEvent)
  | [] => none
  | e :: after => if e.addr = a then some (before, e, after) else locate a (e :: before) after

def walkNext (timestamp : UInt64) (before : List OrderedEvent) :
    List OrderedEvent → List OrderedEvent × List OrderedEvent
  | [] => (before, [])
  | e :: after =>
    if e.timestamp ≤ timestamp then walkNext timestamp (e :: before) after
    else (before, e :: after)

def walkPrev (timestamp : UInt64) :
    List OrderedEvent → List OrderedEvent → List OrderedEvent × List OrderedEvent
  | [], after => ([], after)
  | e :: before, after =>
    if timestamp < e.timestamp then walkPrev timestamp before (e :: after)
    else (e :: before, after)

section

variable (oe : OrderedEvents)

/-- `queue_event`; no result when `oe->last` is not on the list. -/
def queueEvent (new : OrderedEvent) : Option OrderedEvents :=
  let queued := { oe with nrEvents := oe.nrEvents + 1, last := some new.addr }
  match oe.last with
  | none => some { queued with events := new :: oe.events, maxTimestamp := new.timestamp }
  | some a =>
    match locate a [] oe.events with
    | none => none
    | some (before, last, after) =>
      if last.timestamp ≤ new.timestamp then
        -- the first pass of the loop is made at `last` itself
        match walkNext new.timestamp (last :: before) after with
        | (before, []) =>
          some { queued with
            events := before.reverse ++ [new]
            maxTimestamp := new.timestamp }
        | (before, after) => some { queued with events := before.reverse ++ new :: after }
      else
        let (before, after) := walkPrev new.timestamp before (last :: after)
        some { queued with events := before.reverse ++ new :: after }

/-- `dup_event`; `none` for a null pointer. -/
def dupEvent (event : PerfEvent) (memdup : Bool) : Option OrderedEvents :=
  if oe.copyOnQueue then
    if oe.curAllocSize < oe.maxAllocSize ∧ memdup then
      some { oe with curAllocSize := oe.curAllocSize + event.size.toUInt64 }
    else none
  else some oe

/-- `free_dup_event`. -/
def freeDupEvent (event : PerfEvent) : OrderedEvents :=
  if oe.copyOnQueue then { oe with curAllocSize := oe.curAllocSize - event.size.toUInt64 } else oe

/-- `alloc_event`; no result where the code stores through a null pointer. -/
def allocEvent (event : PerfEvent) (mem : Memory) : Option (Option Addr × OrderedEvents) :=
  match oe.dupEvent event mem.memdup with
  | none => some (none, oe)
  | some oe =>
    match oe.cache, oe.buffer with
    | (a, _) :: cache, _ => some (some a, { oe with cache })
    | [], some block =>
      let idx := oe.bufferIdx + 1
      some (some ⟨block, oe.bufferIdx⟩,
        { oe with bufferIdx := idx, buffer := if idx = maxSampleBuffer then none else some block })
    | [], none =>
      if oe.curAllocSize < oe.maxAllocSize then
        if mem.malloc then
          -- the first entry of a block links it into `to_free`
          some (some ⟨oe.blocks, 1⟩,
            { oe with
              curAllocSize := oe.curAllocSize + UInt64.ofNat (maxSampleBuffer * entrySize)
              blocks := oe.blocks + 1
              buffer := some oe.blocks
              bufferIdx := 2 })
        else some (none, oe.freeDupEvent event)
      else none

/-- `ordered_events__new_event`. -/
def newEvent (item : Item) (mem : Memory) : Option (Bool × OrderedEvents) :=
  match oe.allocEvent item.event mem with
  | none => none
  | some (none, oe) => some (false, oe)
  | some (some addr, oe) => (oe.queueEvent { toItem := item, addr }).map (true, ·)

def timestampAt (a : Addr) : UInt64 :=
  match oe.events.find? (·.addr = a) with
  | some e => e.timestamp
  | none => (oe.cache.lookup a).getD 0

/-- `ordered_events__delete`. -/
def delete (e : OrderedEvent) : OrderedEvents :=
  { oe with
    events := oe.events.eraseP (·.addr = e.addr)
    cache := (e.addr, e.timestamp) :: oe.cache
    nrEvents := oe.nrEvents - 1 }.freeDupEvent e.event

def deliver (e : OrderedEvent) : OrderedEvents :=
  { oe.delete e with lastFlush := e.timestamp, delivered := oe.delivered ++ [e] }

end

/-- The loop of `__ordered_events__flush`. -/
def flushLoop (limit : UInt64) (turns : ℕ → Turn) :
    ℕ → List OrderedEvent → OrderedEvents → Option Int × OrderedEvents
  | _, [], oe => (none, oe)
  | i, e :: rest, oe =>
    if (turns i).done then (some 0, oe)
    else if limit < e.timestamp then (none, oe)
    else if (turns i).ret ≠ 0 then (some (turns i).ret, oe)
    else flushLoop limit turns (i + 1) rest (oe.deliver e)

variable (oe : OrderedEvents)

def repairLast (lastTs limit : UInt64) : OrderedEvents :=
  match oe.events.getLast? with
  | none => { oe with last := none }
  | some tail => if lastTs ≤ limit then { oe with last := some tail.addr } else oe

/-- `__ordered_events__flush`. -/
def flushTo (turns : ℕ → Turn) : Int × OrderedEvents :=
  let limit := oe.nextFlush
  let lastTs := (oe.last.map oe.timestampAt).getD 0
  if limit = 0 then (0, oe)
  else
    match flushLoop limit turns 0 oe.events oe with
    | (some ret, oe) => (ret, oe)
    | (none, oe) => (0, oe.repairLast lastTs limit)

def limitFor : OeFlush → Option UInt64
  | .final => some (0 - 1)
  | .half =>
    match oe.events.head?, oe.last with
    | some first, some a =>
      some (first.timestamp + (oe.timestampAt a - first.timestamp) / 2)
    | _, _ => none
  | .round | .none => some oe.nextFlush

/-- `ordered_events__flush`. -/
def flush (how : OeFlush) (turns : ℕ → Turn) : Int × OrderedEvents :=
  if oe.nrEvents = 0 then (0, oe)
  else
    match oe.limitFor how with
    | none => (0, oe)
    | some nextFlush =>
      let (err, oe) := { oe with nextFlush }.flushTo turns
      if err = 0 then
        (0, { oe with
          nextFlush := if how = .round then oe.maxTimestamp else oe.nextFlush
          lastFlushType := how })
      else (err, oe)

/-- `-ETIME`. -/
def etime : Int := -62

/-- `-ENOMEM`. -/
def enomem : Int := -12

/-- The timestamps that are refused. -/
def refuses (timestamp : UInt64) : Prop := timestamp = 0 ∨ timestamp = 0 - 1

instance (timestamp : UInt64) : Decidable (refuses timestamp) := inferInstanceAs (Decidable (_ ∨ _))

def countUnordered (timestamp : UInt64) : OrderedEvents :=
  if timestamp < oe.lastFlush then { oe with nrUnorderedEvents := oe.nrUnorderedEvents + 1 } else oe

/-- `ordered_events__queue`. -/
def queue (item : Item) (first second : Memory) (turns : ℕ → Turn) : Option (Int × OrderedEvents) :=
  if refuses item.timestamp then some (etime, oe)
  else
    match (oe.countUnordered item.timestamp).newEvent item first with
    | none => none
    | some (true, oe) => some (0, oe)
    | some (false, oe) =>
      match (oe.flush .half turns).2.newEvent item second with
      | none => none
      | some (true, oe) => some (0, oe)
      | some (false, oe) => some (enomem, oe)

end OrderedEvents

inductive Op
  | queue (item : Item) (first second : Memory) (turns : ℕ → Turn)
  | flush (how : OeFlush) (turns : ℕ → Turn)

def Op.queued (ret : Int) : Op → List Item
  | .queue item _ _ _ => if ret = 0 then [item] else []
  | .flush _ _ => []

namespace OrderedEvents

/-- One operation, with the value it returns. -/
def step (oe : OrderedEvents) : Op → Option (Int × OrderedEvents)
  | .queue item first second turns => oe.queue item first second turns
  | .flush how turns => some (oe.flush how turns)

def run (oe : OrderedEvents) : List Op → Option (OrderedEvents × List Item)
  | [] => some (oe, [])
  | op :: ops =>
    match oe.step op with
    | none => none
    | some (ret, oe) => (oe.run ops).map fun r => (r.1, op.queued ret ++ r.2)

def Along (P : OrderedEvents → Op → Prop) (oe : OrderedEvents) : List Op → Prop
  | [] => True
  | op :: ops => P oe op ∧ ∀ r, oe.step op = some r → Along P r.2 ops

end OrderedEvents

end RPerf.Session
