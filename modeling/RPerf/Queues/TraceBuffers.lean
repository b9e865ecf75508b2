import RPerf.Packets.Overlap
import RPerf.Packets.Reader
import RPerf.Queues.QueueArray
import RPerf.Record.AuxtraceMmap

/-!
# The way of a trace to its decoder

`auxtrace_queues__add_event` and what it calls, of `auxtrace.c`, put the data of an AUXTRACE
event into a queue: as they lie in a mapping of the whole file, copied out of a pipe, or as
a place in the file; where addresses have 32 bits, in pieces.
-/

namespace RPerf.Queues

open Function Lib

/-- The part of `struct auxtrace_buffer` that is about its data. -/
structure TraceData where
  pid : Int := -1
  dataOffset : UInt64
  offset : UInt64 := 0
  reference : UInt64 := 0
  size : UInt64
  data : Option (List UInt8) := none
  /-- `mmap_addr` is not null -/
  mmapped : Bool := false
  dataNeedsFreeing : Bool := false
  /-- `use_data`, as long as `use_size` -/
  useData : Option (List UInt8) := none
  consecutive : Bool := false
  deriving DecidableEq, Repr

abbrev TraceBuffer : Type := AuxtraceBuffer TraceData

/-- How a session gets at the data of its file. -/
inductive Access
  | oneMmap
  | pipe
  | seek
  deriving DecidableEq, Repr

/-- What the queues of a session need of it. -/
structure TraceSession where
  access : Access
  bits32 : Bool := false
  cpuBitmap : Option (Int → Bool) := none
  file : Memory

structure Arrived where
  event : Record.AuxtraceEvent
  dataOffset : UInt64
  copied : Option (List UInt8) := none

/-- `BUFFER_LIMIT_FOR_32_BIT`. -/
def bufferLimit : UInt64 := 32 * 1024 * 1024

namespace TraceSession

variable {P : Type} (s : TraceSession)

/-- `filter_cpu`. -/
def filterCpu (cpu : Int) : Bool :=
  match s.cpuBitmap with
  | none => false
  | some bitmap => cpu ≠ -1 && !bitmap cpu

/-- `auxtrace_queues__split_buffer`. -/
def splitBuffer (limit : UInt64) (idx : UInt32) :
    ℕ → UInt64 → Bool → TraceBuffer → AuxtraceQueues TraceData P →
    Option (Int × TraceBuffer × AuxtraceQueues TraceData P)
  | 0, _, _, _, _ => none
  | n + 1, sz, consecutive, buffer, q =>
    if limit < sz then
      match q.addBuffer idx
          { buffer with data := { buffer.data with size := limit, consecutive } } with
      | none => none
      | some (err, q) =>
        if err ≠ 0 then some (err, buffer, q)
        else
          let dataOffset := buffer.data.dataOffset + limit
          splitBuffer limit idx n (sz - limit) true
            { buffer with data := { buffer.data with dataOffset } } q
    else some (0, { buffer with data := { buffer.data with size := sz, consecutive } }, q)

/-- `auxtrace_queues__add_event_buffer`. -/
def addEventBuffer (q : AuxtraceQueues TraceData P) (idx : UInt32) (copied : Option (List UInt8))
    (buffer : TraceBuffer) : Option (Int × AuxtraceQueues TraceData P) :=
  match s.access with
  | .oneMmap =>
    let data := bytesAt s.file buffer.data.dataOffset.toNat buffer.data.size.toNat
    q.addBuffer idx { buffer with data := { buffer.data with data } }
  | .pipe =>
    match copied with
    | none => some (-12, q)
    | some data =>
      q.addBuffer idx { buffer with data := { buffer.data with data, dataNeedsFreeing := true } }
  | .seek =>
    if s.bits32 ∧ bufferLimit < buffer.data.size then
      let passes := buffer.data.size.toNat / bufferLimit.toNat + 1
      match splitBuffer bufferLimit idx passes buffer.data.size false buffer q with
      | none => none
      | some (err, buffer, q) => if err ≠ 0 then some (err, q) else q.addBuffer idx buffer
    else q.addBuffer idx buffer

/-- `auxtrace_queues__add_event`. -/
def addEvent (q : AuxtraceQueues TraceData P) (a : Arrived) :
    Option (Int × AuxtraceQueues TraceData P) :=
  if s.filterCpu a.event.cpu then some (0, q)
  else
    s.addEventBuffer q (.ofInt a.event.idx) a.copied {
      data := {
        dataOffset := a.dataOffset, offset := a.event.offset, reference := a.event.reference
        size := a.event.size }
      tid := a.event.tid
      cpu := a.event.cpu }

def addEvents (q : AuxtraceQueues TraceData P) : List Arrived →
    Option (Int × AuxtraceQueues TraceData P)
  | [] => some (0, q)
  | a :: l =>
    match s.addEvent q a with
    | none => none
    | some (err, q) => if err ≠ 0 then some (err, q) else addEvents q l

end TraceSession

namespace TraceBuffer

/-- `auxtrace_buffer__get_data`; `mmap` says whether mapping the file succeeds. -/
def getData (file : Memory) (mmap : Bool) (b : TraceBuffer) : Option TraceBuffer :=
  if b.data.data.isSome then some b
  else if mmap then
    let data := bytesAt file b.data.dataOffset.toNat b.data.size.toNat
    some { b with data := { b.data with data, mmapped := true } }
  else none

/-- `auxtrace_buffer__put_data`. -/
def putData (b : TraceBuffer) : TraceBuffer :=
  if b.data.data = none ∨ b.data.mmapped = false then b
  else { b with data := { b.data with data := none, mmapped := false, useData := none } }

/-- `auxtrace_buffer__drop_data`. -/
def dropData (b : TraceBuffer) : TraceBuffer :=
  let b := putData b
  if b.data.dataNeedsFreeing then
    { b with data := { b.data with
        data := none, dataNeedsFreeing := false, useData := none, size := 0 } }
  else b

/-- `intel_pt_do_fix_overlap`. -/
def fixOverlap (haveTsc : Bool) (a b : TraceBuffer) : TraceBuffer :=
  let data := b.data.data.getD []
  let start := Packets.findOverlap (a.data.data.getD []) data haveTsc
  { b with data := { b.data with useData := some (data.drop start) } }

def content (file : Memory) (b : TraceBuffer) : List UInt8 :=
  b.data.data.getD (bytesAt file b.data.dataOffset.toNat b.data.size.toNat)

def used (b : TraceBuffer) : List UInt8 := b.data.useData.getD (b.data.data.getD [])

end TraceBuffer

/-- The modes of a trace. -/
structure TraceMode where
  snapshotMode : Bool := false
  samplingMode : Bool := false
  haveTsc : Bool := true

/-- The part of `struct intel_pt_queue` that `intel_pt_get_trace` works on. -/
structure Drawing where
  buffer : Option ℕ := none
  stop : Bool := false
  stepThroughBuffers : Bool := false
  useBufferPidTid : Bool := false
  pid : Int := -1
  tid : Int := -1
  cpu : Int := -1
  deriving DecidableEq, Repr

def Drawing.usePidTid (ptq : Drawing) (queueCpu : Int) (b : TraceBuffer) : Drawing :=
  { ptq with
    cpu := if queueCpu = -1 ∧ b.cpu ≠ -1 then b.cpu else ptq.cpu
    pid := b.data.pid
    tid := b.tid }

def Drawing.take (ptq : Drawing) (queueCpu : Int) (b : TraceBuffer) : Drawing :=
  let ptq :=
    if ptq.useBufferPidTid ∧ (ptq.pid ≠ b.data.pid ∨ ptq.tid ≠ b.tid) then
      ptq.usePidTid queueCpu b
    else ptq
  if ptq.stepThroughBuffers then { ptq with stop := true } else ptq

structure Drawn where
  ret : Int
  filled : Packets.Buffer
  ptq : Drawing
  bufs : List TraceBuffer

/-- A queue that buffers are drawn from, where the modes and the file stay the same. -/
structure Source where
  mode : TraceMode
  file : Memory
  queueCpu : Int := -1
  mmap : ℕ → Bool := fun _ => true

namespace Source

variable (src : Source)

def dropOld (old : Option ℕ) (bufs : List TraceBuffer) : List TraceBuffer :=
  match old with
  | none => bufs
  | some k => bufs.modify k TraceBuffer.dropData

def fixed (old : Option ℕ) (bufs : List TraceBuffer) (buffer : TraceBuffer) : TraceBuffer :=
  if src.mode.snapshotMode ∧ buffer.data.consecutive = false then
    match old.bind (bufs[·]?) with
    | none => buffer
    | some a => a.fixOverlap src.mode.haveTsc buffer
  else buffer

/-- `intel_pt_get_trace` from `next` on. -/
def getTraceFrom : ℕ → Option ℕ → Drawing → List TraceBuffer → Option Drawn
  | 0, _, _, _ => none
  | n + 1, old, ptq, bufs =>
    let i := (ptq.buffer.map (· + 1)).getD 0
    match bufs[i]? with
    | none => some ⟨0, { bytes := [] }, ptq, dropOld old bufs⟩
    | some buffer =>
      let ptq := { ptq with buffer := some i }
      match buffer.getData src.file (src.mmap i) with
      | none => some ⟨-12, { bytes := [] }, ptq, bufs⟩
      | some buffer =>
        let buffer := src.fixed old bufs buffer
        let bufs := bufs.set i buffer
        if src.mode.snapshotMode ∧ buffer.used = [] then getTraceFrom n old ptq bufs
        else
          let bufs := dropOld old bufs
          let filled : Packets.Buffer :=
            if old = none ∨ src.mode.samplingMode ∨
                (src.mode.snapshotMode ∧ buffer.data.consecutive = false) then
              ⟨buffer.used, false, buffer.data.reference, buffer.bufferNr + 1⟩
            else ⟨buffer.used, true, buffer.data.reference, 0⟩
          let ptq := ptq.take src.queueCpu buffer
          if buffer.used = [] then
            if ptq.stop then some ⟨0, { bytes := [] }, ptq, bufs⟩
            else getTraceFrom n (some i) ptq bufs
          else some ⟨0, filled, ptq, bufs⟩

/-- `intel_pt_get_trace`. -/
def getTrace (ptq : Drawing) (bufs : List TraceBuffer) : Option Drawn :=
  if ptq.stop then some ⟨0, { bytes := [] }, ptq, bufs⟩
  else src.getTraceFrom (bufs.length + 1) ptq.buffer ptq bufs

def drawAll : ℕ → Drawing → List TraceBuffer → List Packets.TraceItem
  | 0, _, _ => []
  | n + 1, ptq, bufs =>
    match src.getTrace ptq bufs with
    | none => []
    | some d =>
      if d.ret ≠ 0 then .nomem :: drawAll n d.ptq d.bufs
      else if d.filled.bytes = [] then []
      else .buffer d.filled :: drawAll n d.ptq d.bufs

def fresh (old : Option (List UInt8)) (b : TraceBuffer) : List UInt8 :=
  match old with
  | none => b.content src.file
  | some a =>
    if src.mode.snapshotMode ∧ b.data.consecutive = false then
      (b.content src.file).drop (Packets.findOverlap a (b.content src.file) src.mode.haveTsc)
    else b.content src.file

def pieces : Option (List UInt8) → List TraceBuffer → List Packets.Buffer
  | _, [] => []
  | old, b :: l =>
    let bytes := src.fresh old b
    if bytes = [] then
      if src.mode.snapshotMode then pieces old l else pieces (some (b.content src.file)) l
    else
      let first := old = none ∨ src.mode.samplingMode ∨
        (src.mode.snapshotMode ∧ b.data.consecutive = false)
      (if first then ⟨bytes, false, b.data.reference, b.bufferNr + 1⟩
        else ⟨bytes, true, b.data.reference, 0⟩) :: pieces (some (b.content src.file)) l

structure At (bufs0 : List TraceBuffer) (old : Option ℕ) (a : Option (List UInt8)) (i : ℕ)
    (ptq : Drawing) (bufs : List TraceBuffer) : Prop where
  next : (ptq.buffer.map (· + 1)).getD 0 = i
  le : i ≤ bufs0.length
  length : bufs.length = bufs0.length
  ahead : ∀ j, i ≤ j → bufs[j]? = bufs0[j]?
  old : (old = none ∧ a = none) ∨ ∃ k b x, old = some k ∧ a = some x ∧ k < i ∧
    bufs[k]? = some b ∧ b.data.data = some x
  stop : ptq.stop = false
  step : ptq.stepThroughBuffers = false

section Drawing

variable {src : Source} {bufs0 bufs : List TraceBuffer} {old : Option ℕ}
  {a : Option (List UInt8)} {i : ℕ} {ptq : Drawing} {b b' : TraceBuffer}

/-- A buffer with its data at hand. -/
structure Loaded (src : Source) (b b' : TraceBuffer) : Prop where
  data : b'.data.data = some (b.content src.file)
  consecutive : b'.data.consecutive = b.data.consecutive
  reference : b'.data.reference = b.data.reference
  bufferNr : b'.bufferNr = b.bufferNr

theorem getData_loaded (src : Source) (b : TraceBuffer) :
    ∃ b', b.getData src.file true = some b' ∧ Loaded src b b' ∧
      b'.data.useData = b.data.useData := by
  rw [TraceBuffer.getData]
  cases hdata : b.data.data with
  | none => exact ⟨_, rfl, ⟨by simp [TraceBuffer.content, hdata], rfl, rfl, rfl⟩, rfl⟩
  | some x => exact ⟨b, rfl, ⟨by simp [TraceBuffer.content, hdata], rfl, rfl, rfl⟩, rfl⟩

theorem At.fixed (h : At bufs0 old a i ptq bufs) (hb : Loaded src b b')
    (huse : b'.data.useData = none) :
    Loaded src b (src.fixed old bufs b') ∧ (src.fixed old bufs b').used = src.fresh a b := by
  have hcontent : b'.used = b.content src.file := by
    rw [TraceBuffer.used, huse, hb.data]
    rfl
  rcases h.old with ⟨rfl, rfl⟩ | ⟨k, c, x, rfl, rfl, hk, hc, hx⟩
  · have hsame : src.fixed none bufs b' = b' := by
      rw [Source.fixed]
      split <;> rfl
    rw [hsame]
    exact ⟨hb, hcontent⟩
  · rw [Source.fixed, fresh, hb.consecutive]
    split_ifs with hfix
    · simp only [Option.bind_some, hc]
      refine ⟨⟨hb.data, hb.consecutive, hb.reference, hb.bufferNr⟩, ?_⟩
      simp [TraceBuffer.fixOverlap, TraceBuffer.used, hb.data, hx]
    · exact ⟨hb, hcontent⟩

theorem getElem?_dropOld {old : Option ℕ} (bufs : List TraceBuffer) {j : ℕ} (h : old ≠ some j) :
    (dropOld old bufs)[j]? = bufs[j]? := by
  cases old with
  | none => rfl
  | some k =>
    have hne : k ≠ j := fun hkj => h (congrArg some hkj)
    simp [dropOld, hne]

theorem length_dropOld (old : Option ℕ) (bufs : List TraceBuffer) :
    (dropOld old bufs).length = bufs.length := by
  cases old with
  | none => rfl
  | some k => exact List.length_modify ..

theorem At.advance (h : At bufs0 old a i ptq bufs) (hb : Loaded src b b') (hi : i < bufs.length)
    {ptq' : Drawing} (hbuffer : ptq'.buffer = some i) (hstop : ptq'.stop = false)
    (hstep : ptq'.stepThroughBuffers = false) :
    At bufs0 (some i) (some (b.content src.file)) (i + 1) ptq' (dropOld old (bufs.set i b')) := by
  have hold : ∀ j, i ≤ j → old ≠ some j := by
    intro j hj hk
    rcases h.old with ⟨hnone, -⟩ | ⟨k, c, x, hsome, -, hlt, -⟩
    · cases hk.symm.trans hnone
    · cases hk.symm.trans hsome
      omega
  constructor
  case next => rw [hbuffer]; rfl
  case le => exact h.length ▸ hi
  case length =>
    rw [length_dropOld, List.length_set]
    exact h.length
  case ahead =>
    intro j hj
    rw [getElem?_dropOld _ (hold j (by omega)), List.getElem?_set_ne (by omega)]
    exact h.ahead j (by omega)
  case old =>
    refine .inr ⟨i, b', _, rfl, rfl, Nat.lt_succ_self i, ?_, hb.data⟩
    rw [getElem?_dropOld _ (hold i le_rfl), List.getElem?_set_self hi]
  case stop => exact hstop
  case step => exact hstep

theorem At.skip (h : At bufs0 old a i ptq bufs) (hi : i < bufs.length) (b' : TraceBuffer) :
    At bufs0 old a (i + 1) { ptq with buffer := some i } (bufs.set i b') where
  next := rfl
  le := h.length ▸ hi
  length := List.length_set.trans h.length
  ahead j hj := by
    rw [List.getElem?_set_ne (by omega)]
    exact h.ahead j (by omega)
  old := by
    rcases h.old with hnone | ⟨k, c, x, hk, ha, hlt, hc, hx⟩
    · exact .inl hnone
    · refine .inr ⟨k, c, x, hk, ha, by omega, ?_, hx⟩
      rw [List.getElem?_set_ne (by omega)]
      exact hc
  stop := h.stop
  step := h.step

def Gives (src : Source) (bufs0 : List TraceBuffer) (d : Drawn) : List Packets.Buffer → Prop
  | [] => d.filled.bytes = []
  | p :: rest => d.filled = p ∧ p.bytes ≠ [] ∧ ∃ a i, src.pieces a (bufs0.drop i) = rest ∧
      At bufs0 d.ptq.buffer a i d.ptq d.bufs

theorem take_eq (ptq : Drawing) (hstep : ptq.stepThroughBuffers = false) (queueCpu : Int)
    (b : TraceBuffer) :
    (ptq.take queueCpu b).buffer = ptq.buffer ∧ (ptq.take queueCpu b).stop = ptq.stop ∧
      (ptq.take queueCpu b).stepThroughBuffers = false := by
  by_cases huse : ptq.useBufferPidTid ∧ (ptq.pid ≠ b.data.pid ∨ ptq.tid ≠ b.tid)
  · simp [Drawing.take, Drawing.usePidTid, huse, hstep]
  · simp [Drawing.take, huse, hstep]

theorem At.getTraceFrom (hmmap : ∀ k, src.mmap k = true) (huse : ∀ b ∈ bufs0, b.data.useData = none)
    {n : ℕ} (hn : bufs0.length < n + i) (h : At bufs0 old a i ptq bufs) :
    ∃ d, src.getTraceFrom n old ptq bufs = some d ∧ d.ret = 0 ∧
      Gives src bufs0 d (src.pieces a (bufs0.drop i)) := by
  induction n generalizing old a i ptq bufs with
  | zero =>
    have hle := h.le
    omega
  | succ n ih =>
    have hahead := h.ahead i le_rfl
    simp only [Source.getTraceFrom, h.next]
    cases hget : bufs[i]? with
    | none =>
      have hnil : bufs0.drop i = [] := by
        rw [List.drop_eq_nil_iff]
        exact List.getElem?_eq_none_iff.mp (hahead.symm.trans hget)
      rw [hnil]
      exact ⟨_, rfl, rfl, rfl⟩
    | some b =>
      have hi : i < bufs.length := (List.getElem?_eq_some_iff.mp hget).1
      obtain ⟨hlt, hb0⟩ := List.getElem?_eq_some_iff.mp (hahead.symm.trans hget)
      obtain ⟨b₁, hdata, hload₁, huse₁⟩ := getData_loaded src b
      have huse₁ : b₁.data.useData = none :=
        huse₁.trans (huse b (hb0 ▸ List.getElem_mem hlt))
      obtain ⟨hload, hused⟩ := h.fixed hload₁ huse₁
      rw [List.drop_eq_getElem_cons hlt, hb0, Source.pieces]
      simp only [hmmap, hdata]
      generalize src.fixed old bufs b₁ = b₂ at hload hused ⊢
      have hnone : old = none ↔ a = none := by
        rcases h.old with ⟨rfl, rfl⟩ | ⟨k, c, x, rfl, rfl, -⟩ <;> simp
      simp only [hused, hload.consecutive, hload.reference, hload.bufferNr, hnone]
      have htake := take_eq { ptq with buffer := some i } h.step src.queueCpu b₂
      generalize Drawing.take _ src.queueCpu b₂ = ptq' at htake ⊢
      obtain ⟨hbuffer, hstop, hstep⟩ := htake
      have hstop : ptq'.stop = false := hstop.trans h.stop
      have hnext := h.advance hload hi hbuffer hstop hstep
      by_cases hempty : src.fresh a b = []
      · by_cases hsnap : src.mode.snapshotMode = true
        · simp only [hempty, hsnap, and_self, if_true]
          exact ih (by omega) (h.skip hi b₂)
        · simp only [hempty, Bool.not_eq_true _ ▸ hsnap, hstop, Bool.false_eq_true, false_and,
            if_true, if_false]
          exact ih (by omega) hnext
      · simp only [hempty, and_false, if_false]
        refine ⟨_, rfl, rfl, rfl, ?_, _, _, rfl, hbuffer ▸ hnext⟩
        split_ifs <;> exact hempty

/-- The calls hand out the pieces. -/
theorem At.drawAll (hmmap : ∀ k, src.mmap k = true) (huse : ∀ b ∈ bufs0, b.data.useData = none)
    {n : ℕ} (h : At bufs0 ptq.buffer a i ptq bufs) (hn : (src.pieces a (bufs0.drop i)).length < n) :
    src.drawAll n ptq bufs = (src.pieces a (bufs0.drop i)).map .buffer := by
  induction n generalizing a i ptq bufs with
  | zero => cases hn
  | succ n ih =>
    have hfuel : bufs0.length < bufs.length + 1 + i := by
      rw [h.length]
      omega
    obtain ⟨d, hd, hret, hgives⟩ := h.getTraceFrom hmmap huse hfuel
    have hget : src.getTrace ptq bufs = some d := by
      rw [Source.getTrace, h.stop]
      exact hd
    simp only [Source.drawAll, hget, hret, ne_eq, not_true, if_false]
    cases hp : src.pieces a (bufs0.drop i) with
    | nil =>
      rw [hp] at hgives
      exact if_pos hgives
    | cons p rest =>
      rw [hp] at hgives hn
      obtain ⟨hfilled, hne, a', i', hrest, hat⟩ := hgives
      rw [hfilled, if_neg hne, ih hat (by rw [hrest]; exact Nat.lt_of_succ_lt_succ hn), hrest]
      rfl

/-- Before the first call. -/
theorem at_start (bufs0 : List TraceBuffer) (hbuffer : ptq.buffer = none)
    (hstop : ptq.stop = false) (hstep : ptq.stepThroughBuffers = false) :
    At bufs0 ptq.buffer none 0 ptq bufs0 where
  next := by rw [hbuffer]; rfl
  le := Nat.zero_le _
  length := rfl
  ahead _ _ := rfl
  old := .inl ⟨hbuffer, rfl⟩
  stop := hstop
  step := hstep

end Drawing

section Pieces

variable {src : Source}

theorem pieces_length_le (a : Option (List UInt8)) (l : List TraceBuffer) :
    (src.pieces a l).length ≤ l.length := by
  induction l generalizing a with
  | nil => rfl
  | cons b l ih =>
    simp only [pieces]
    split_ifs
    · exact (ih _).trans (Nat.le_succ _)
    · exact (ih _).trans (Nat.le_succ _)
    all_goals exact Nat.succ_le_succ (ih _)

theorem fresh_of_full (h : src.mode.snapshotMode = false) (a : Option (List UInt8))
    (b : TraceBuffer) : src.fresh a b = b.content src.file := by
  cases a <;> simp [fresh, h]

theorem pieces_of_full (hsnap : src.mode.snapshotMode = false)
    (hsample : src.mode.samplingMode = false) {l : List TraceBuffer}
    (hl : ∀ b ∈ l, b.content src.file ≠ []) (a : Option (List UInt8)) :
    (src.pieces a l).map Packets.Buffer.bytes = l.map (TraceBuffer.content src.file) ∧
      (src.pieces a l).map Packets.Buffer.consecutive =
        (l.map fun _ => true).modifyHead fun _ => a.isSome := by
  induction l generalizing a with
  | nil => exact ⟨rfl, rfl⟩
  | cons b l ih =>
    rw [List.forall_mem_cons] at hl
    obtain ⟨hbytes, hflags⟩ := ih hl.2 (some (b.content src.file))
    have htrue : (l.map fun _ => true).modifyHead (fun _ => true) = l.map fun _ => true := by
      cases l <;> rfl
    rw [Option.isSome_some, htrue] at hflags
    simp only [pieces, fresh_of_full hsnap, if_neg hl.1, hsnap, hsample]
    cases a with
    | none => simp [hbytes, hflags]
    | some a => simp [hbytes, hflags]

end Pieces

end Source

/-- What an event brings. -/
def Arrived.bytes (s : TraceSession) (a : Arrived) : List UInt8 :=
  match s.access with
  | .pipe => a.copied.getD []
  | _ => bytesAt s.file a.dataOffset.toNat a.event.size.toNat

structure Whole (file : Memory) (b : TraceBuffer) : Prop where
  useData : b.data.useData = none
  content : b.content file ≠ []

structure Filled {P : Type} (file : Memory) (owner : ℕ → Int × Int) (want : ℕ → List UInt8)
    (q : AuxtraceQueues TraceData P) : Prop where
  nrQueues : ∃ k ≤ 26, q.nrQueues.toNat = 2 ^ k
  owner : ∀ i < q.nrQueues.toNat, (q.queueArray i).set = true →
    ((q.queueArray i).tid, (q.queueArray i).cpu) = owner i
  content : ∀ i < q.nrQueues.toNat,
    ((q.queueArray i).head.map (TraceBuffer.content file)).flatten = want i
  whole : ∀ i < q.nrQueues.toNat, ∀ b ∈ (q.queueArray i).head, Whole file b
  beyond : ∀ i, q.nrQueues.toNat ≤ i → want i = []

section Filling

variable {P : Type} {file : Memory} {owner : ℕ → Int × Int} {want : ℕ → List UInt8}
  {q : AuxtraceQueues TraceData P}

theorem ne_zero_of_pow {nr : UInt32} {k : ℕ} (h : nr.toNat = 2 ^ k) : nr ≠ 0 := by
  rintro rfl
  exact absurd h (Nat.two_pow_pos k).ne

theorem doubling_pow {newNr : UInt32} (hnew : newNr.toNat ≤ 2 ^ 26) {fuel k : ℕ} {nr : UInt32}
    (hk : k ≤ 26) (hfuel : 26 ≤ fuel + k) (hnr : nr.toNat = 2 ^ k) :
    ∃ m, k ≤ m ∧ m ≤ 26 ∧ (doubling newNr fuel nr).toNat = 2 ^ m ∧ newNr.toNat ≤ 2 ^ m := by
  induction fuel generalizing k nr with
  | zero =>
    have h26 : k = 26 := by omega
    subst h26
    exact ⟨26, le_rfl, le_rfl, hnr, hnew⟩
  | succ fuel ih =>
    have hpos := ne_zero_of_pow hnr
    rw [doubling]
    by_cases hlt : nr < newNr
    · rw [if_pos ⟨hpos, hlt⟩]
      rw [UInt32.lt_iff_toNat_lt, hnr] at hlt
      have hk' : k + 1 ≤ 26 := by
        by_contra hge
        have h26 : k = 26 := by omega
        subst h26
        omega
      have hshift : (nr <<< 1).toNat = 2 ^ (k + 1) := by
        have hbound : 2 ^ (k + 1) ≤ 2 ^ 26 := Nat.pow_le_pow_right (by decide) hk'
        rw [UInt32.toNat_shiftLeft, Nat.shiftLeft_eq, hnr]
        change 2 ^ k * 2 % 2 ^ 32 = _
        rw [← Nat.pow_succ]
        exact Nat.mod_eq_of_lt (by omega)
      obtain ⟨m, hm, hrest⟩ := ih hk' (by omega) hshift
      exact ⟨m, by omega, hrest⟩
    · rw [if_neg fun h => hlt h.2]
      rw [UInt32.lt_iff_toNat_lt, hnr] at hlt
      exact ⟨k, le_rfl, hk, hnr, by omega⟩

theorem Filled.grow (h : Filled file owner want q) {newNr : UInt32} (hnew : newNr.toNat ≤ 2 ^ 26) :
    ∃ q', q.grow newNr = (0, q') ∧ Filled file owner want q' ∧
      newNr.toNat ≤ q'.nrQueues.toNat := by
  obtain ⟨k, hk, hnr⟩ := h.nrQueues
  have hpos := ne_zero_of_pow hnr
  obtain ⟨m, hkm, hm, hdoubled, hroom⟩ := doubling_pow hnew hk (show 26 ≤ 32 + k by omega) hnr
  have hle : q.nrQueues.toNat ≤ 2 ^ m := hnr ▸ Nat.pow_le_pow_right (by decide) hkm
  have hmax : 2 ^ m ≤ 2 ^ 26 := Nat.pow_le_pow_right (by decide) hm
  refine ⟨q.copied (doubling newNr 32 q.nrQueues), ?_, ?_, ?_⟩
  · simp only [AuxtraceQueues.grow, if_neg hpos]
    rw [if_neg, if_neg]
    · rw [UInt32.lt_iff_toNat_lt, hdoubled]
      change ¬ 107374182 < _
      omega
    · rw [UInt32.lt_iff_toNat_lt, UInt32.lt_iff_toNat_lt, hdoubled]
      omega
  · exact {
      nrQueues := ⟨m, hm, hdoubled⟩
      owner := by
        intro i _ hset
        simp only [AuxtraceQueues.copied] at hset
        split at hset <;> cases hset
      content := by
        intro i _
        simp only [AuxtraceQueues.copied]
        split_ifs with hi
        · exact h.content i hi
        · exact (h.beyond i (Nat.le_of_not_lt hi)).symm
      whole := by
        intro i _
        simp only [AuxtraceQueues.copied]
        split_ifs with hi
        · exact h.whole i hi
        · simp
      beyond := by
        intro i hi
        have hi' : 2 ^ m ≤ i := hdoubled ▸ hi
        exact h.beyond i (hle.trans hi') }
  · exact hroom.trans (le_of_eq hdoubled.symm)

theorem Filled.addBuffer (h : Filled file owner want q) {idx : UInt32} (hidx : idx.toNat < 2 ^ 26)
    {b : TraceBuffer} (howner : (b.tid, b.cpu) = owner idx.toNat) (hb : Whole file b) :
    ∃ q', q.addBuffer idx b = some (0, q') ∧
      Filled file owner (update want idx.toNat (want idx.toNat ++ b.content file)) q' := by
  have hnext : (idx + 1).toNat = idx.toNat + 1 := by
    rw [UInt32.toNat_add]
    change (idx.toNat + 1) % 2 ^ 32 = _
    omega
  obtain ⟨q₁, hgrow, h₁, hroom⟩ : ∃ q₁, (if q.nrQueues ≤ idx then q.grow (idx + 1) else (0, q)) =
      (0, q₁) ∧ Filled file owner want q₁ ∧ idx.toNat < q₁.nrQueues.toNat := by
    split_ifs with hle
    · obtain ⟨q₁, hgrow, h₁, hroom⟩ := h.grow (show (idx + 1).toNat ≤ 2 ^ 26 by omega)
      exact ⟨q₁, hgrow, h₁, by omega⟩
    · exact ⟨q, rfl, h, UInt32.lt_iff_toNat_lt.mp (UInt32.not_le.mp hle)⟩
  have hin : ¬ q₁.nrQueues ≤ idx := by
    rw [UInt32.le_iff_toNat_le]
    omega
  have haccept : ∀ queue : AuxtraceQueue TraceData P,
      queue.head = (q₁.queueArray idx.toNat).head → (queue.tid, queue.cpu) = owner idx.toNat →
      Filled file owner (update want idx.toNat (want idx.toNat ++ b.content file))
        (q₁.accept idx.toNat queue b) := by
    intro queue hhead hqueue
    refine ⟨h₁.nrQueues, ?_, ?_, ?_, ?_⟩
    · exact (forall_update_iff q₁.queueArray fun i queue => i < q₁.nrQueues.toNat →
        queue.set = true → (queue.tid, queue.cpu) = owner i).mpr
          ⟨fun _ _ => hqueue, fun i _ => h₁.owner i⟩
    · intro i hi
      simp only [AuxtraceQueues.accept]
      by_cases hne : i = idx.toNat
      · subst hne
        rw [update_self, update_self, ← h₁.content _ hi]
        simp [hhead, TraceBuffer.content]
      · rw [update_of_ne hne, update_of_ne hne]
        exact h₁.content i hi
    · refine (forall_update_iff q₁.queueArray fun i queue => i < q₁.nrQueues.toNat →
        ∀ b ∈ queue.head, Whole file b).mpr ⟨fun hi c hc => ?_, fun i _ => h₁.whole i⟩
      simp only [hhead, List.mem_append, List.mem_singleton] at hc
      rcases hc with hc | rfl
      · exact h₁.whole _ hi c hc
      · exact ⟨hb.useData, hb.content⟩
    · intro i hi
      have hi' : q₁.nrQueues.toNat ≤ i := hi
      rw [update_of_ne (by omega)]
      exact h₁.beyond i hi'
  simp only [AuxtraceQueues.addBuffer, hgrow, ne_eq, not_true, if_false, if_neg hin]
  by_cases hset : (q₁.queueArray idx.toNat).set = true
  · have hsame := h₁.owner _ hroom hset
    rw [← howner, Prod.mk.injEq] at hsame
    have hmatch : ¬ (b.cpu ≠ (q₁.queueArray idx.toNat).cpu ∨
        b.tid ≠ (q₁.queueArray idx.toNat).tid) := by
      simp [hsame.1, hsame.2]
    rw [if_neg (by simp [hset]), if_neg hmatch]
    exact ⟨_, rfl, haccept _ rfl (h₁.owner _ hroom hset)⟩
  · rw [if_pos (by simpa using hset)]
    exact ⟨_, rfl, haccept _ rfl howner⟩

theorem bytesAt_ne_nil (file : Memory) (o : ℕ) {n : ℕ} (hn : 0 < n) : bytesAt file o n ≠ [] := by
  intro hnil
  have hlen := length_bytesAt file o n
  rw [hnil, List.length_nil] at hlen
  omega

theorem bufferLimit_pos : 0 < bufferLimit.toNat := by decide +kernel

theorem Filled.splitBuffer (h : Filled file owner want q) {limit : UInt64}
    (hlimit : 0 < limit.toNat) {idx : UInt32}
    (hidx : idx.toNat < 2 ^ 26) {b : TraceBuffer} (howner : (b.tid, b.cpu) = owner idx.toNat)
    (huse : b.data.useData = none) (hdata : b.data.data = none) {n : ℕ} {sz : UInt64}
    (hpos : 0 < sz.toNat) (hfuel : sz.toNat < n * limit.toNat)
    (hend : b.data.dataOffset.toNat + sz.toNat ≤ 2 ^ 64) (consecutive : Bool) :
    ∃ b' q' part, TraceSession.splitBuffer limit idx n sz consecutive b q = some (0, b', q') ∧
      Filled file owner (update want idx.toNat (want idx.toNat ++ part)) q' ∧
      part ++ b'.content file = bytesAt file b.data.dataOffset.toNat sz.toNat ∧
      (b'.tid, b'.cpu) = owner idx.toNat ∧ Whole file b' := by
  induction n generalizing want q b sz consecutive with
  | zero =>
    rw [Nat.zero_mul] at hfuel
    exact absurd hfuel (Nat.not_lt_zero _)
  | succ n ih =>
    rw [TraceSession.splitBuffer]
    by_cases hlt : limit < sz
    · rw [if_pos hlt]
      rw [Nat.succ_mul] at hfuel
      rw [UInt64.lt_iff_toNat_lt] at hlt
      have hsub : (sz - limit).toNat = sz.toNat - limit.toNat :=
        UInt64.toNat_sub_of_le _ _ (UInt64.le_iff_toNat_le.mpr hlt.le)
      have hoff : (b.data.dataOffset + limit).toNat =
          b.data.dataOffset.toNat + limit.toNat := by
        rw [UInt64.toNat_add]
        exact Nat.mod_eq_of_lt (by omega)
      let piece : TraceBuffer := { b with data := { b.data with size := limit, consecutive } }
      have hpiece : piece.content file =
          bytesAt file b.data.dataOffset.toNat limit.toNat := by
        simp only [piece, TraceBuffer.content, hdata, Option.getD_none]
      have hwhole : Whole file piece := by
        refine ⟨huse, ?_⟩
        rw [hpiece]
        exact bytesAt_ne_nil file _ hlimit
      obtain ⟨q₁, hadd, h₁⟩ := h.addBuffer hidx (b := piece) howner hwhole
      obtain ⟨b', q', part, hsplit, hfilled, hcontent, hrest⟩ := ih h₁
        (b := { b with data := { b.data with dataOffset := b.data.dataOffset + limit } })
        howner huse hdata (hsub ▸ Nat.sub_pos_of_lt hlt) (by omega)
        (by simp only [hoff, hsub]; omega) true
      refine ⟨b', q', piece.content file ++ part, ?_, ?_, ?_, hrest⟩
      · simp only [piece] at hadd
        simp only [hadd, ne_eq, not_true, if_false]
        exact hsplit
      · rwa [update_self, update_idem, List.append_assoc] at hfilled
      · simp only [hoff, hsub] at hcontent
        rw [List.append_assoc, hcontent, hpiece, ← bytesAt_add, Nat.add_sub_cancel' hlt.le]
    · rw [if_neg hlt]
      have hcontent : TraceBuffer.content file
          { b with data := { b.data with size := sz, consecutive } } =
            bytesAt file b.data.dataOffset.toNat sz.toNat := by
        simp only [TraceBuffer.content, hdata, Option.getD_none]
      refine ⟨_, q, [], rfl, ?_, hcontent, howner, huse, ?_⟩
      · rwa [List.append_nil, update_eq_self]
      · rw [hcontent]
        exact bytesAt_ne_nil file _ hpos

theorem Filled.addEvent {s : TraceSession} (h : Filled s.file owner want q) {a : Arrived} {i : ℕ}
    (hi : i < 2 ^ 26) (hidx : a.event.idx = i) (howner : (a.event.tid, a.event.cpu) = owner i)
    (hbytes : a.bytes s ≠ [])
    (hend : s.access = .seek → a.dataOffset.toNat + a.event.size.toNat ≤ 2 ^ 64) :
    ∃ q', s.addEvent q a = some (0, q') ∧ Filled s.file owner
      (update want i (want i ++ if s.filterCpu (owner i).2 then [] else a.bytes s)) q' := by
  have hcpu : a.event.cpu = (owner i).2 := congrArg Prod.snd howner
  rw [TraceSession.addEvent, hcpu]
  by_cases hfilter : s.filterCpu (owner i).2 = true
  · rw [if_pos hfilter, if_pos hfilter]
    refine ⟨q, rfl, ?_⟩
    rwa [List.append_nil, update_eq_self]
  rw [if_neg hfilter, if_neg hfilter]
  have hto : (UInt32.ofInt a.event.idx).toNat = i := by
    rw [hidx, UInt32.ofInt]
    simp only [UInt32.toNat_ofNat']
    omega
  generalize UInt32.ofInt a.event.idx = idx at hto ⊢
  subst hto
  have hlimit := bufferLimit_pos
  simp only [TraceSession.addEventBuffer]
  generalize bufferLimit = limit at hlimit ⊢
  cases haccess : s.access with
  | oneMmap =>
    simp only [Arrived.bytes, haccess] at hbytes ⊢
    exact h.addBuffer hi (hcpu ▸ howner) ⟨rfl, hbytes⟩
  | pipe =>
    cases hcopied : a.copied with
    | none => simp [Arrived.bytes, haccess, hcopied] at hbytes
    | some data =>
      simp only [Arrived.bytes, haccess, hcopied, Option.getD_some] at hbytes ⊢
      exact h.addBuffer hi (hcpu ▸ howner) ⟨rfl, hbytes⟩
  | seek =>
    simp only [Arrived.bytes, haccess] at hbytes ⊢
    by_cases hsplit : s.bits32 ∧ limit < a.event.size
    · have hpos : 0 < a.event.size.toNat :=
        lt_of_le_of_lt (Nat.zero_le _) (UInt64.lt_iff_toNat_lt.mp hsplit.2)
      have hfuel : a.event.size.toNat < (a.event.size.toNat / limit.toNat + 1) * limit.toNat := by
        rw [Nat.mul_comm]
        exact Nat.lt_mul_div_succ _ hlimit
      obtain ⟨b', q₁, part, hrun, h₁, hcontent, howner', hwhole⟩ := h.splitBuffer hlimit hi
        (b := { data := { dataOffset := a.dataOffset, offset := a.event.offset
                          reference := a.event.reference, size := a.event.size }
                tid := a.event.tid, cpu := (owner idx.toNat).2 })
        (hcpu ▸ howner) rfl rfl hpos hfuel (hend haccess) false
      obtain ⟨q', hadd, h'⟩ := h₁.addBuffer hi howner' hwhole
      refine ⟨q', ?_, ?_⟩
      · simp only [if_pos hsplit, hrun, ne_eq, not_true, if_false]
        exact hadd
      · rw [update_self, update_idem, List.append_assoc, hcontent] at h'
        exact h'
    · simp only [if_neg hsplit]
      exact h.addBuffer hi (hcpu ▸ howner) ⟨rfl, hbytes⟩

end Filling

def recordAux (itr : Record.AuxtraceRecord) : (ℕ → Record.AuxtraceMmap) →
    List (ℕ × Record.Reading) → List Record.Passed
  | _, [] => []
  | rings, (i, r) :: l =>
    let mm := { rings i with base := r.base }
    let out := mm.read itr (fun _ => 0) (mm.headAfter r.d)
    out.passed.toList ++ recordAux itr (update rings i out.mmap) l

/-- Ring `i` holds at each read what is new of the trace `trace i`. -/
def RingsHold (trace : ℕ → ℕ → UInt8) (len : ℕ → ℕ) : (ℕ → ℕ) → List (ℕ × Record.Reading) → Prop
  | _, [] => True
  | pos, (i, r) :: l => (∀ j < r.d, r.base ((pos i + j) % len i) = trace i (pos i + j)) ∧
      RingsHold trace len (update pos i (pos i + r.d)) l

/-- What has been passed stands in the file, where the event is read. -/
structure Stands (s : TraceSession) (p : Record.Passed) (a : Arrived) : Prop where
  event : a.event = p.event
  bytes : a.bytes s = Record.processAuxtrace.written p
  fits : s.access = .seek → a.dataOffset.toNat + a.event.size.toNat ≤ 2 ^ 64

/-- The sizes of the reads of a ring. -/
def readsOf (i : ℕ) (l : List (ℕ × Record.Reading)) : List ℕ :=
  (l.filter fun v => v.1 = i).map fun v => v.2.d

def padded (trace : ℕ → UInt8) : ℕ → List ℕ → List UInt8
  | _, [] => []
  | p, d :: l => (List.range' p d).map trace ++ List.replicate ((8 - d % 8) % 8) 0 ++
      padded trace (p + d) l

theorem padded_of_dvd (trace : ℕ → UInt8) {l : List ℕ} (h : ∀ d ∈ l, 8 ∣ d) (p : ℕ) :
    padded trace p l = (List.range' p l.sum).map trace := by
  induction l generalizing p with
  | nil => rfl
  | cons d l ih =>
    rw [List.forall_mem_cons] at h
    have hzero : (8 - d % 8) % 8 = 0 := by omega
    rw [padded, ih h.2, hzero, List.replicate_zero, List.append_nil, ← List.map_append,
      List.range'_append_1, List.sum_cons]

section Path

variable {P : Type} {s : TraceSession} {itr : Record.AuxtraceRecord}

variable {mm : Record.AuxtraceMmap}

theorem read_event {fn : Record.Passed → Int} {head : UInt64} {p : Record.Passed}
    (h : (mm.read itr fn head).passed = some p) :
    p.event.idx = mm.idx ∧ p.event.tid = mm.tid ∧ p.event.cpu = mm.cpu := by
  simp only [Record.AuxtraceMmap.read, Option.isSome_none, Bool.false_eq_true, if_false] at h
  split_ifs at h
  all_goals
    cases h
    exact ⟨rfl, rfl, rfl⟩

theorem written_eq {p : Record.Passed} (h : p.data.length < 2 ^ 63) :
    Record.processAuxtrace.written p =
      p.data ++ List.replicate ((8 - p.data.length % 8) % 8) 0 := by
  have hlen := Record.length_written h
  rw [Record.processAuxtrace.written, List.length_append, List.length_append] at hlen
  simp only [Record.Passed.data, List.length_append, List.length_replicate] at hlen ⊢
  rw [Record.processAuxtrace.written]
  congr 2
  omega

theorem read_trace (h : mm.Valid) (halign : itr.alignment = 0) {d p : ℕ} (hd : 0 < d)
    (hle : d ≤ mm.len.toNat) (hp : mm.prev.toNat = p % mm.wrap) {trace : ℕ → UInt8}
    (htrace : ∀ j < d, mm.base ((p + j) % mm.len.toNat) = trace (p + j)) :
    ∃ passed, (mm.read itr (fun _ => 0) (mm.headAfter d)).passed = some passed ∧
      Record.processAuxtrace.written passed =
        (List.range' p d).map trace ++ List.replicate ((8 - d % 8) % 8) 0 ∧
      (mm.read itr (fun _ => 0) (mm.headAfter d)).mmap =
        { mm with prev := mm.headAfter d, auxTail := mm.headAfter d } ∧
      (mm.headAfter d).toNat = (p + d) % mm.wrap := by
  obtain ⟨passed, hpassed, hcovers, hmmap⟩ := h.read hd hle halign fun _ => rfl
  have hdata : passed.data = (List.range' p d).map trace := by
    rw [hcovers.data, hp, Record.ringAt_written Record.AuxtraceMmap.len_dvd_wrap htrace]
  have hlen : passed.data.length = d := by
    rw [hdata, List.length_map, List.length_range']
  have hsmall := h.len_lt
  refine ⟨passed, hpassed, ?_, hmmap, ?_⟩
  · rw [written_eq (by omega), hlen, hdata]
  · rw [h.headAfter_toNat, hp, Nat.mod_add_mod]

theorem readsOf_cons (i : ℕ) (v : ℕ × Record.Reading) (l : List (ℕ × Record.Reading)) :
    readsOf i (v :: l) = if v.1 = i then v.2.d :: readsOf i l else readsOf i l := by
  by_cases hi : v.1 = i <;> simp [readsOf, hi]

structure RingsAt (owner : ℕ → Int × Int) (len pos : ℕ → ℕ) (rings : ℕ → Record.AuxtraceMmap) :
    Prop where
  valid : ∀ i, (rings i).Valid
  idx : ∀ i, (rings i).idx = i
  owner : ∀ i, ((rings i).tid, (rings i).cpu) = owner i
  len : ∀ i, (rings i).len.toNat = len i
  pos : ∀ i, (rings i).prev.toNat = pos i % (rings i).wrap

theorem RingsAt.update {owner : ℕ → Int × Int} {len pos : ℕ → ℕ} {rings : ℕ → Record.AuxtraceMmap}
    (h : RingsAt owner len pos rings) {i d : ℕ} (hvalid : mm.Valid) (hidx : mm.idx = (rings i).idx)
    (howner : (mm.tid, mm.cpu) = ((rings i).tid, (rings i).cpu)) (hlen : mm.len = (rings i).len)
    (hpos : mm.prev.toNat = (pos i + d) % mm.wrap) :
    RingsAt owner len (update pos i (pos i + d)) (update rings i mm) where
  valid := (forall_update_iff rings fun _ mm => mm.Valid).mpr ⟨hvalid, fun k _ => h.valid k⟩
  idx := (forall_update_iff rings fun k mm => mm.idx = k).mpr
    ⟨hidx.trans (h.idx i), fun k _ => h.idx k⟩
  owner := (forall_update_iff rings fun k mm => (mm.tid, mm.cpu) = owner k).mpr
    ⟨howner.trans (h.owner i), fun k _ => h.owner k⟩
  len := (forall_update_iff rings fun k mm => mm.len.toNat = len k).mpr
    ⟨(congrArg UInt64.toNat hlen).trans (h.len i), fun k _ => h.len k⟩
  pos := by
    apply (forall_update_iff rings fun k mm =>
      mm.prev.toNat = Function.update pos i (pos i + d) k % mm.wrap).mpr
    refine ⟨by rw [update_self]; exact hpos, ?_⟩
    intro k hk
    rw [update_of_ne hk]
    exact h.pos k

theorem Filled.record (halign : itr.alignment = 0) {trace : ℕ → ℕ → UInt8} {len : ℕ → ℕ}
    {owner : ℕ → Int × Int} {visits : List (ℕ × Record.Reading)} {rings : ℕ → Record.AuxtraceMmap}
    {pos : ℕ → ℕ} {want : ℕ → List UInt8} {q : AuxtraceQueues TraceData P} {arrivals : List Arrived}
    (hrings : RingsAt owner len pos rings)
    (hvisits : ∀ v ∈ visits, v.1 < 2 ^ 26 ∧ 0 < v.2.d ∧ v.2.d ≤ len v.1)
    (htrace : RingsHold trace len pos visits)
    (hfile : List.Forall₂ (Stands s) (recordAux itr rings visits) arrivals)
    (h : Filled s.file owner want q) :
    ∃ q', s.addEvents q arrivals = some (0, q') ∧ Filled s.file owner (fun i => want i ++
      if s.filterCpu (owner i).2 then [] else padded (trace i) (pos i) (readsOf i visits)) q' := by
  induction visits generalizing rings pos want q arrivals with
  | nil =>
    cases hfile
    exact ⟨q, rfl, by simpa [readsOf, padded] using h⟩
  | cons v visits ih =>
    obtain ⟨i, r⟩ := v
    rw [List.forall_mem_cons] at hvisits
    obtain ⟨⟨hi, hd, hle⟩, hrest⟩ := hvisits
    obtain ⟨hnew, hlater⟩ := htrace
    have hbase : ({ rings i with base := r.base } : Record.AuxtraceMmap).Valid :=
      { hrings.valid i with }
    have hput : ∀ j < r.d, r.base ((pos i + j) % (rings i).len.toNat) =
        trace i (pos i + j) := by
      simpa only [hrings.len] using hnew
    obtain ⟨p, hpassed, hwritten, hmmap, hhead⟩ := read_trace hbase halign hd
      ((hrings.len i).symm ▸ hle) (hrings.pos i) hput
    rw [recordAux, hpassed, hmmap] at hfile
    obtain ⟨a, arrivals, hstands, hlast, rfl⟩ := List.forall₂_cons_left_iff.mp hfile
    obtain ⟨hpidx, hptid, hpcpu⟩ := read_event hpassed
    have hbytes : a.bytes s ≠ [] := by
      rw [hstands.bytes, hwritten]
      obtain ⟨d, hd⟩ := Nat.exists_eq_succ_of_ne_zero hd.ne'
      rw [hd]
      simp
    obtain ⟨q₁, hadd, h₁⟩ := h.addEvent hi (by rw [hstands.event, hpidx]; exact hrings.idx i)
      (by rw [hstands.event, hptid, hpcpu]; exact hrings.owner i) hbytes hstands.fits
    have hnext := hrings.update (i := i) (hbase.next r.d) rfl rfl rfl hhead
    obtain ⟨q', hadds, h'⟩ := ih hnext hrest hlater hlast h₁
    refine ⟨q', ?_, ?_⟩
    · simp only [TraceSession.addEvents, hadd, ne_eq, not_true, if_false]
      exact hadds
    · convert h' using 2 with k
      rw [readsOf_cons]
      by_cases hk : k = i
      · subst hk
        rw [if_pos rfl, update_self, update_self, hstands.bytes, hwritten, padded]
        split_ifs <;> simp
      · rw [if_neg (Ne.symm hk), update_of_ne hk, update_of_ne hk]

theorem filled_init (file : Memory) (owner : ℕ → Int × Int) :
    Filled file owner (fun _ => []) (AuxtraceQueues.init : AuxtraceQueues TraceData P) where
  nrQueues := ⟨5, by decide, rfl⟩
  owner i _ h := by cases h
  content _ _ := rfl
  whole i _ b hb := by cases hb
  beyond _ _ := rfl

theorem padded_ne_nil {trace : ℕ → UInt8} {p : ℕ} {l : List ℕ} (h : ∃ d ∈ l, 0 < d) :
    padded trace p l ≠ [] := by
  induction l generalizing p with
  | nil => simp at h
  | cons d l ih =>
    rw [padded]
    by_cases hd : 0 < d
    · obtain ⟨d, rfl⟩ := Nat.exists_eq_succ_of_ne_zero hd.ne'
      simp
    · obtain ⟨d', hmem, hd'⟩ := h
      rcases List.mem_cons.mp hmem with rfl | hmem
      · exact absurd hd' hd
      · exact List.append_ne_nil_of_right_ne_nil _ (ih ⟨d', hmem, hd'⟩)

end Path

/-- From the AUX areas to the decoders. -/
theorem trace_reaches_decoder {P : Type} (s : TraceSession) (src : Source)
    (itr : Record.AuxtraceRecord) (rings : ℕ → Record.AuxtraceMmap)
    (visits : List (ℕ × Record.Reading)) (trace : ℕ → ℕ → UInt8) (arrivals : List Arrived)
    (halign : itr.alignment = 0) (hvalid : ∀ i, (rings i).Valid) (hidx : ∀ i, (rings i).idx = i)
    (hvisits : ∀ v ∈ visits, v.1 < 2 ^ 26 ∧ 0 < v.2.d ∧ v.2.d ≤ (rings v.1).len.toNat)
    (htrace : RingsHold trace (fun i => (rings i).len.toNat) (fun i => (rings i).prev.toNat) visits)
    (hfile : List.Forall₂ (Stands s) (recordAux itr rings visits) arrivals)
    (hsrc : src.file = s.file) (hsnap : src.mode.snapshotMode = false)
    (hsample : src.mode.samplingMode = false) (hmmap : ∀ k, src.mmap k = true)
    (ptq : Drawing) (hbuffer : ptq.buffer = none) (hstop : ptq.stop = false)
    (hstep : ptq.stepThroughBuffers = false) :
    ∃ q : AuxtraceQueues TraceData P, s.addEvents .init arrivals = some (0, q) ∧
      ∀ v ∈ visits, s.filterCpu (rings v.1).cpu = false →
        v.1 < q.nrQueues.toNat ∧ ∃ bufs : List Packets.Buffer,
          src.drawAll ((q.queueArray v.1).head.length + 1) ptq (q.queueArray v.1).head =
              bufs.map .buffer ∧
            (∀ b ∈ bufs, b.bytes ≠ []) ∧
            bufs.map Packets.Buffer.consecutive =
              (bufs.map fun _ => true).modifyHead (fun _ => false) ∧
            (bufs.map Packets.Buffer.bytes).flatten =
              padded (trace v.1) (rings v.1).prev.toNat (readsOf v.1 visits) ∧
            ((∀ d ∈ readsOf v.1 visits, 8 ∣ d) → (bufs.map Packets.Buffer.bytes).flatten =
              (List.range' (rings v.1).prev.toNat (readsOf v.1 visits).sum).map (trace v.1)) := by
  have hrings : RingsAt (fun i => ((rings i).tid, (rings i).cpu))
      (fun i => (rings i).len.toNat) (fun i => (rings i).prev.toNat) rings :=
    ⟨hvalid, hidx, fun _ => rfl, fun _ => rfl,
      fun i => (Nat.mod_eq_of_lt (hvalid i).prev_lt).symm⟩
  obtain ⟨q, hadds, h⟩ := Filled.record halign hrings hvisits htrace hfile
    (filled_init (P := P) s.file _)
  refine ⟨q, hadds, ?_⟩
  intro v hv hfilter
  have hwant : padded (trace v.1) (rings v.1).prev.toNat (readsOf v.1 visits) ≠ [] := by
    apply padded_ne_nil
    refine ⟨v.2.d, List.mem_map.mpr ⟨v, List.mem_filter.mpr ⟨hv, by simp⟩, rfl⟩, ?_⟩
    exact (hvisits v hv).2.1
  have hin : v.1 < q.nrQueues.toNat := by
    by_contra hout
    have hnil := h.beyond v.1 (Nat.le_of_not_lt hout)
    simp only [hfilter, Bool.false_eq_true, if_false, List.nil_append] at hnil
    exact hwant hnil
  have hcontent := h.content v.1 hin
  simp only [hfilter, Bool.false_eq_true, if_false, List.nil_append] at hcontent
  have hwhole := h.whole v.1 hin
  rw [← hsrc] at hcontent hwhole
  generalize (q.queueArray v.1).head = head at hcontent hwhole ⊢
  obtain ⟨hbytes, hflags⟩ := Source.pieces_of_full hsnap hsample
    (fun b hb => (hwhole b hb).content) none
  have hdraw := (Source.at_start head hbuffer hstop hstep).drawAll hmmap
    (fun b hb => (hwhole b hb).useData)
    (Nat.lt_succ_of_le (Source.pieces_length_le none _))
  rw [List.drop_zero] at hdraw
  have hflat : ((src.pieces none head).map Packets.Buffer.bytes).flatten =
      padded (trace v.1) (rings v.1).prev.toNat (readsOf v.1 visits) := by
    rw [hbytes]
    exact hcontent
  refine ⟨hin, src.pieces none head, hdraw, ?_, ?_, hflat, ?_⟩
  · intro b hb
    have hmem : b.bytes ∈ head.map (TraceBuffer.content src.file) :=
      hbytes ▸ List.mem_map_of_mem hb
    obtain ⟨c, hc, hcb⟩ := List.mem_map.mp hmem
    exact hcb ▸ (hwhole c hc).content
  · have hlen : head.length = (src.pieces none head).length := by
      simpa using (congrArg List.length hbytes).symm
    rw [hflags, List.map_const', List.map_const', hlen]
    rfl
  · intro hdvd
    rw [hflat, padded_of_dvd _ hdvd]

theorem piped_trace_reaches_decoder :
    let rings : ℕ → Record.AuxtraceMmap := fun i => { Record.demoMmap with idx := i }
    let visits : List (ℕ × Record.Reading) := Record.demoReadings.map fun r => (0, r)
    let s : TraceSession := { access := .pipe, file := fun _ => 0 }
    let src : Source := { mode := {}, file := fun _ => 0 }
    let arrivals : List Arrived := (recordAux {} rings visits).map fun p =>
      ⟨p.event, 0, some (Record.processAuxtrace.written p)⟩
    ∃ q : AuxtraceQueues TraceData Unit, s.addEvents .init arrivals = some (0, q) ∧
      ∃ bufs : List Packets.Buffer,
        src.drawAll ((q.queueArray 0).head.length + 1) {} (q.queueArray 0).head =
            bufs.map .buffer ∧
          (bufs.map Packets.Buffer.bytes).flatten =
            [0, 1, 2, 3, 4, 0, 0, 0] ++ [5, 6, 7, 8, 9, 10, 11, 12, 13, 14, 0, 0, 0, 0, 0, 0] := by
  intro rings visits s src arrivals
  have hdemo : Record.demoMmap.Valid :=
    ⟨by decide +kernel, by decide +kernel, rfl, by decide +kernel⟩
  have hvalid : ∀ i, (rings i).Valid := fun i => { hdemo with }
  have hfile : List.Forall₂ (Stands s) (recordAux {} rings visits) arrivals := by
    rw [List.forall₂_map_right_iff, List.forall₂_same]
    intro p _
    exact ⟨rfl, rfl, by intro h; cases h⟩
  obtain ⟨q, hadds, hall⟩ := trace_reaches_decoder (P := Unit) s src {} rings visits
    (fun _ => UInt8.ofNat) arrivals rfl hvalid (fun _ => rfl) (by decide +kernel)
    (by simp only [RingsHold, visits, Record.demoReadings, List.map]; decide +kernel)
    hfile rfl rfl rfl (fun _ => rfl) {} rfl rfl rfl
  obtain ⟨-, bufs, hdraw, -, -, hbytes, -⟩ := hall (0, ⟨fun i => UInt8.ofNat i, 5⟩)
    (List.mem_cons_self ..) rfl
  exact ⟨q, hadds, bufs, hdraw, hbytes⟩

end RPerf.Queues
