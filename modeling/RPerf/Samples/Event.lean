import RPerf.Lib.ByteFormat

/-!
# Sample events

`perf_event__sample_event_size`, `perf_event__synthesize_sample` and
`perf_evsel__parse_sample` of `evsel.c`, on a little-endian host.
-/

namespace RPerf.Samples

open Lib

/-- `enum perf_event_sample_format`. -/
inductive SampleBit
  | ip | tid | time | addr | read | callchain | id | cpu | period | streamId | raw
  | branchStack | regsUser | stackUser | weight | dataSrc | identifier | transaction
  | regsIntr | physAddr
  deriving DecidableEq, Repr

def SampleBit.pos : SampleBit → ℕ
  | .ip => 0
  | .tid => 1
  | .time => 2
  | .addr => 3
  | .read => 4
  | .callchain => 5
  | .id => 6
  | .cpu => 7
  | .period => 8
  | .streamId => 9
  | .raw => 10
  | .branchStack => 11
  | .regsUser => 12
  | .stackUser => 13
  | .weight => 14
  | .dataSrc => 15
  | .identifier => 16
  | .transaction => 17
  | .regsIntr => 18
  | .physAddr => 19

inductive FormatBit
  | totalTimeEnabled | totalTimeRunning | group
  deriving DecidableEq, Repr

def FormatBit.pos : FormatBit → ℕ
  | .totalTimeEnabled => 0
  | .totalTimeRunning => 1
  | .group => 3

/-- `mask & 1 << pos`. -/
def bit (mask : UInt64) (pos : ℕ) : Bool := mask.toNat.testBit pos

def has (type : UInt64) (b : SampleBit) : Bool := bit type b.pos

def hasFormat (readFormat : UInt64) (b : FormatBit) : Bool := bit readFormat b.pos

/-- `hweight_long`. -/
def hweight (mask : UInt64) : ℕ := (List.range 64).countP (bit mask)

structure SampleReadValue where
  value : UInt64 := 0
  id : UInt64 := 0
  deriving DecidableEq, Repr

structure SampleRead where
  timeEnabled : UInt64 := 0
  timeRunning : UInt64 := 0
  group : List SampleReadValue := []
  one : SampleReadValue := {}
  deriving DecidableEq, Repr

structure BranchEntry where
  from_ : UInt64 := 0
  to_ : UInt64 := 0
  flags : UInt64 := 0
  deriving DecidableEq, Repr

structure RegsDump where
  abi : UInt64 := 0
  mask : UInt64 := 0
  regs : Vector UInt64 (hweight mask) := Vector.replicate _ 0
  deriving DecidableEq, Repr

structure StackDump where
  offset : UInt16 := 0
  data : List UInt8 := []
  deriving DecidableEq, Repr

structure PerfSample where
  ip : UInt64 := 0
  pid : UInt32 := 0
  tid : UInt32 := 0
  time : UInt64 := 0
  addr : UInt64 := 0
  id : UInt64 := 0
  streamId : UInt64 := 0
  period : UInt64 := 0
  weight : UInt64 := 0
  transaction : UInt64 := 0
  cpu : UInt32 := 0
  dataSrc : UInt64 := 0
  physAddr : UInt64 := 0
  cpumode : UInt8 := 0
  rawData : List UInt8 := []
  callchain : List UInt64 := []
  branchStack : List BranchEntry := []
  userRegs : RegsDump := {}
  intrRegs : RegsDump := {}
  userStack : StackDump := {}
  read : SampleRead := {}
  deriving DecidableEq, Repr

def le64 (x : UInt64) : List UInt8 := littleEndian 8 x.toNat

def le32 (x : UInt32) : List UInt8 := littleEndian 4 x.toNat

variable (bs : List UInt8)

def of64 : UInt64 := UInt64.ofNat (ofBytes bs)

def of32 : UInt32 := UInt32.ofNat (ofBytes bs)

def halfBytes (u : UInt32 × UInt32) : List UInt8 := le32 u.1 ++ le32 u.2

/-- `bswap_32`. -/
def bswap32 (x : UInt32) : UInt32 := of32 (le32 x).reverse

/-- `bswap_64` of the word that has these halves. -/
def bswap64 (u : UInt32 × UInt32) : UInt32 × UInt32 := (bswap32 u.2, bswap32 u.1)

/-- A count, as it is stored. -/
def le64Nat (n : ℕ) : List UInt8 := le64 (UInt64.ofNat n)

def SampleReadValue.bytes (v : SampleReadValue) : List UInt8 := le64 v.value ++ le64 v.id

def SampleReadValue.ofBytes : SampleReadValue :=
  ⟨of64 (bs.take 8), of64 (bs.drop 8)⟩

def BranchEntry.bytes (e : BranchEntry) : List UInt8 := le64 e.from_ ++ le64 e.to_ ++ le64 e.flags

def BranchEntry.ofBytes : BranchEntry :=
  ⟨of64 (bs.take 8), of64 ((bs.drop 8).take 8), of64 (bs.drop 16)⟩

def regsSize (regs : RegsDump) : ℕ := if regs.abi ≠ 0 then 8 + hweight regs.mask * 8 else 8

/-- `perf_event__sample_event_size`. -/
def sampleEventSize (s : PerfSample) (type readFormat : UInt64) : ℕ :=
  let on (b : SampleBit) (size : ℕ) : ℕ := if has type b then size else 0
  8 + on .identifier 8 + on .ip 8 + on .tid 8 + on .time 8 + on .addr 8 + on .id 8 +
    on .streamId 8 + on .cpu 8 + on .period 8 +
    on .read (8 + (if hasFormat readFormat .totalTimeEnabled then 8 else 0) +
      (if hasFormat readFormat .totalTimeRunning then 8 else 0) +
      (if hasFormat readFormat .group then s.read.group.length * 16 else 8)) +
    on .callchain ((s.callchain.length + 1) * 8) +
    on .raw (4 + s.rawData.length) +
    on .branchStack (s.branchStack.length * 24 + 8) +
    on .regsUser (regsSize s.userRegs) +
    on .stackUser (8 + if s.userStack.data.length ≠ 0 then s.userStack.data.length + 8 else 0) +
    on .weight 8 + on .dataSrc 8 + on .transaction 8 +
    on .regsIntr (regsSize s.intrRegs) + on .physAddr 8

def writeRead (readFormat : UInt64) (r : SampleRead) (w : Cursor) : Cursor :=
  let w := w.put (if hasFormat readFormat .group then le64Nat r.group.length else le64 r.one.value)
  let w := w.optional (hasFormat readFormat .totalTimeEnabled) (·.put (le64 r.timeEnabled))
  let w := w.optional (hasFormat readFormat .totalTimeRunning) (·.put (le64 r.timeRunning))
  w.put (if hasFormat readFormat .group then r.group.flatMap SampleReadValue.bytes
    else le64 r.one.id)

def swapBoth : Bool → UInt32 × UInt32 → UInt32 × UInt32
  | true, u => bswap64 (bswap32 u.1, bswap32 u.2)
  | false, u => u

def swapFirst : Bool → UInt32 × UInt32 → UInt32 × UInt32
  | true, u => bswap64 (bswap32 u.1, u.2)
  | false, u => u

/-- The raw data behind its size. -/
def writeRaw (u : UInt32 × UInt32) (data : List UInt8) (w : Cursor) : Cursor :=
  ((w.poke (halfBytes u)).advance 4).put data

def writeRegs (regs : RegsDump) (w : Cursor) : Cursor :=
  if regs.abi ≠ 0 then (w.put (le64 regs.abi)).put (regs.regs.toList.flatMap le64)
  else w.put (le64 0)

def writeStack (data : List UInt8) (w : Cursor) : Cursor :=
  let w := w.put (le64Nat data.length)
  if data.length ≠ 0 then (w.put data).put (le64Nat data.length) else w

/-- `perf_event__synthesize_sample`, from where the header of the event ends. -/
def synthesizeSample (type readFormat : UInt64) (s : PerfSample) (u : UInt32 × UInt32)
    (w : Cursor) (swapped : Bool := false) : Cursor :=
  let w := w.optional (has type .identifier) (·.put (le64 s.id))
  let w := w.optional (has type .ip) (·.put (le64 s.ip))
  let u := if has type .tid then swapBoth swapped (s.pid, s.tid) else u
  let w := w.optional (has type .tid) (·.put (halfBytes u))
  let w := w.optional (has type .time) (·.put (le64 s.time))
  let w := w.optional (has type .addr) (·.put (le64 s.addr))
  let w := w.optional (has type .id) (·.put (le64 s.id))
  let w := w.optional (has type .streamId) (·.put (le64 s.streamId))
  let u := if has type .cpu then swapFirst swapped (s.cpu, u.2) else u
  let w := w.optional (has type .cpu) (·.put (halfBytes u))
  let w := w.optional (has type .period) (·.put (le64 s.period))
  let w := w.optional (has type .read) (writeRead readFormat s.read)
  let w := w.optional (has type .callchain)
    (·.put (le64Nat s.callchain.length ++ s.callchain.flatMap le64))
  let u := if has type .raw then swapBoth swapped (UInt32.ofNat s.rawData.length, u.2) else u
  let w := w.optional (has type .raw) (writeRaw u s.rawData)
  let w := w.optional (has type .branchStack)
    (·.put (le64Nat s.branchStack.length ++ s.branchStack.flatMap BranchEntry.bytes))
  let w := w.optional (has type .regsUser) (writeRegs s.userRegs)
  let w := w.optional (has type .stackUser) (writeStack s.userStack.data)
  let w := w.optional (has type .weight) (·.put (le64 s.weight))
  let w := w.optional (has type .dataSrc) (·.put (le64 s.dataSrc))
  let w := w.optional (has type .transaction) (·.put (le64 s.transaction))
  let w := w.optional (has type .regsIntr) (writeRegs s.intrRegs)
  w.optional (has type .physAddr) (·.put (le64 s.physAddr))

/-- The fields of `struct perf_evsel` that samples are parsed with. -/
structure Evsel where
  sampleType : UInt64
  readFormat : UInt64 := 0
  samplePeriod : UInt64 := 0
  sampleRegsUser : UInt64 := 0
  sampleRegsIntr : UInt64 := 0
  sampleIdAll : Bool := false

/-- `PERF_SAMPLE_MASK`. -/
def perfSampleMask : UInt64 := 0x103cf

/-- `__perf_evsel__sample_size`. -/
def sampleSize (type : UInt64) : ℕ := hweight (type &&& perfSampleMask) * 8

structure Header where
  type : UInt32
  misc : UInt16 := 0
  size : UInt16

/-- `union perf_event`, with the bytes in front of it, the nearest one first. -/
structure Event where
  header : Header
  mem : Memory
  front : Memory := fun _ => 0

variable (event : Event)

def Event.byte : ℤ → UInt8
  | .ofNat i => event.mem i
  | .negSucc i => event.front i

def Event.bytes (o : ℤ) (n : ℕ) : List UInt8 :=
  (List.range n).map fun i => event.byte (o + i)

def Event.word (o : ℤ) : UInt64 := of64 (event.bytes o 8)

/-- The two halves of the word. -/
def Event.halves (o : ℤ) : UInt32 × UInt32 :=
  (of32 (event.bytes o 4), of32 (event.bytes (o + 4) 4))

def perfRecordSample : UInt32 := 9

abbrev Parser := Lib.Parser (2 ^ 16)

/-- `-EFAULT`. -/
def efault : Int := -14

/-- `if (...) return -EFAULT`. -/
def failIf (c : Prop) [Decidable c] : Parser Unit := .silent fun _ o =>
  if c then .error efault else .ok ((), o)

/-- `OVERFLOW_CHECK`. -/
def overflowCheck (size : ℕ) : Parser Unit := .silent fun inp o =>
  if inp.size < size ∨ inp.size < o + size then .error efault else .ok ((), o)

/-- `OVERFLOW_CHECK_u64`. -/
def overflowCheckU64 : Parser Unit := .silent fun inp o =>
  if inp.size < o + 8 then .error efault else .ok ((), o)

def word : Parser UInt64 := .reading 8 fun inp o => (of64 (bytesAt inp.mem o 8), o + 8)

/-- The two halves of `*array`. -/
def wordAt (mem : Memory) (o : ℕ) : UInt32 × UInt32 :=
  (of32 (bytesAt mem o 4), of32 (bytesAt mem (o + 4) 4))

def halves (n : ℕ) : Parser (UInt32 × UInt32) := .reading 8 fun inp o => (wordAt inp.mem o, o + n)

/-- What undoes `swapBoth`. -/
def unswapBoth : Bool → UInt32 × UInt32 → UInt32 × UInt32
  | true, u => (bswap32 (bswap64 u).1, bswap32 (bswap64 u).2)
  | false, u => u

/-- What undoes `swapFirst`. -/
def unswapFirst : Bool → UInt32 × UInt32 → UInt32 × UInt32
  | true, u => (bswap32 (bswap64 u).1, (bswap64 u).2)
  | false, u => u

def checkedWord : Parser UInt64 := do
  overflowCheckU64
  word

def checkedArray {α : Type} (size : ℕ) (decode : List UInt8 → α) (nr : UInt64) :
    Parser (List α) := do
  failIf ((2 ^ 64 - 1) / size < nr.toNat)
  overflowCheck (nr.toNat * size)
  Lib.Parser.entries size decode nr.toNat

def parseRead (readFormat : UInt64) : Parser SampleRead := do
  let first ← checkedWord
  let timeEnabled ← Lib.Parser.optional (hasFormat readFormat .totalTimeEnabled) 0 checkedWord
  let timeRunning ← Lib.Parser.optional (hasFormat readFormat .totalTimeRunning) 0 checkedWord
  if hasFormat readFormat .group then
    let group ← checkedArray 16 SampleReadValue.ofBytes first
    return { timeEnabled, timeRunning, group }
  else
    let id ← checkedWord
    return { timeEnabled, timeRunning, one := ⟨first, id⟩ }

def parseCallchain : Parser (List UInt64) := do
  let nr ← checkedWord
  checkedArray 8 of64 nr

/-- The raw data behind its size. -/
def parseRaw (swapped : Bool) : Parser (List UInt8) := do
  overflowCheckU64
  let u ← halves 4
  let size := (unswapBoth swapped u).1
  overflowCheck size.toNat
  Lib.Parser.bytes size.toNat

def parseBranchStack : Parser (List BranchEntry) := do
  let nr ← checkedWord
  checkedArray 24 BranchEntry.ofBytes nr

def parseRegs (mask : UInt64) : Parser RegsDump := do
  let abi ← checkedWord
  if abi ≠ 0 then
    overflowCheck (hweight mask * 8)
    let regs ← Lib.Parser.vector 8 of64 (hweight mask)
    return { abi, mask, regs }
  else return { abi }

def parseStack : Parser StackDump := do
  let offset ← Lib.Parser.position
  let sz ← checkedWord
  if sz = 0 then return { offset := UInt16.ofNat offset }
  else
    overflowCheck sz.toNat
    let data ← Lib.Parser.bytes sz.toNat
    let size ← checkedWord
    failIf (sz < size)
    return { offset := UInt16.ofNat offset, data := data.take size.toNat }

/-- `PERF_MEM_DATA_SRC_NONE`. -/
def perfMemDataSrcNone : UInt64 := 0x5080021

variable (evsel : Evsel)

/-- `perf_evsel__parse_sample` from the raw data on. -/
def parseTail (swapped : Bool) (data : PerfSample) : Parser PerfSample := do
  let type := evsel.sampleType
  let rawData ← Lib.Parser.optional (has type .raw) [] (parseRaw swapped)
  let branchStack ← Lib.Parser.optional (has type .branchStack) [] parseBranchStack
  let userRegs ← Lib.Parser.optional (has type .regsUser) {} (parseRegs evsel.sampleRegsUser)
  let userStack ← Lib.Parser.optional (has type .stackUser) {} parseStack
  let weight ← Lib.Parser.optional (has type .weight) 0 checkedWord
  let dataSrc ← Lib.Parser.optional (has type .dataSrc) perfMemDataSrcNone checkedWord
  let transaction ← Lib.Parser.optional (has type .transaction) 0 checkedWord
  let intrRegs ← Lib.Parser.optional (has type .regsIntr) {} (parseRegs evsel.sampleRegsIntr)
  let physAddr ← Lib.Parser.optional (has type .physAddr) 0 word
  return { data with
    rawData, branchStack, userRegs, userStack, weight, dataSrc, transaction, intrRegs, physAddr }

/-- `perf_evsel__parse_sample` behind the header. -/
def parseSections (cpumode : UInt8) (swapped : Bool) : Parser PerfSample := do
  let type := evsel.sampleType
  let id ← Lib.Parser.optional (has type .identifier) (-1) word
  let ip ← Lib.Parser.optional (has type .ip) 0 word
  let ids ← Lib.Parser.optional (has type .tid) (-1, -1) (do return unswapBoth swapped (← halves 8))
  let time ← Lib.Parser.optional (has type .time) (-1) word
  let addr ← Lib.Parser.optional (has type .addr) 0 word
  let id ← Lib.Parser.optional (has type .id) id word
  let streamId ← Lib.Parser.optional (has type .streamId) (-1) word
  let cpu ← Lib.Parser.optional (has type .cpu) (-1, 0) (do return unswapFirst swapped (← halves 8))
  let period ← Lib.Parser.optional (has type .period) evsel.samplePeriod word
  let read ← Lib.Parser.optional (has type .read) {} (parseRead evsel.readFormat)
  let callchain ← Lib.Parser.optional (has type .callchain) [] parseCallchain
  parseTail evsel swapped {
    ip, pid := ids.1, tid := ids.2, time, addr, id, streamId, period, cpu := cpu.1, cpumode
    callchain, read }

/-- `perf_evsel__parse_id_sample`, from the end of the event towards its start. -/
def parseIdSample (event : Event) (needsSwap : Bool) (data : PerfSample) : PerfSample :=
  let type := evsel.sampleType
  let o : ℤ := 8 + (((event.header.size.toNat : ℤ) - 8) / 8 - 1) * 8
  let data := if has type .identifier then { data with id := event.word o } else data
  let o := if has type .identifier then o - 8 else o
  let data := if has type .cpu then
    { data with cpu := (unswapFirst needsSwap (event.halves o)).1 } else data
  let o := if has type .cpu then o - 8 else o
  let data := if has type .streamId then { data with streamId := event.word o } else data
  let o := if has type .streamId then o - 8 else o
  let data := if has type .id then { data with id := event.word o } else data
  let o := if has type .id then o - 8 else o
  let data := if has type .time then { data with time := event.word o } else data
  let o := if has type .time then o - 8 else o
  let ids := unswapBoth needsSwap (event.halves o)
  if has type .tid then { data with pid := ids.1, tid := ids.2 } else data

/-- `perf_evsel__parse_sample`. -/
def parseSample (event : Event) (needsSwap : Bool := false) : Except Int PerfSample :=
  let cpumode := (event.header.misc &&& 7).toUInt8
  if event.header.type ≠ perfRecordSample then
    let data : PerfSample :=
      { cpu := -1, pid := -1, tid := -1, streamId := -1, id := -1, time := -1
        period := evsel.samplePeriod, cpumode }
    .ok (if evsel.sampleIdAll then parseIdSample evsel event needsSwap data else data)
  else if event.header.size.toNat < sampleSize evsel.sampleType + 8 then .error efault
  else
    let inp : Input (2 ^ 16) := ⟨event.mem, event.header.size.toNat, event.header.size.toNat_lt⟩
    ((parseSections evsel cpumode needsSwap).run inp 8).map Prod.fst

end RPerf.Samples
