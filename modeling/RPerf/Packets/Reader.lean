import RPerf.Lib.Loops
import RPerf.Packets.PrefixCode

/-!
# Reading packets out of trace buffers

The part of `struct intel_pt_decoder` that the packet layer of `intel-pt-decoder.c` works
on, and its functions.
-/

namespace RPerf.Packets

open Lib

/-- `struct intel_pt_buffer` as `get_trace` fills it. -/
structure Buffer where
  bytes : List UInt8
  consecutive : Bool := true
  refTimestamp : UInt64 := 0
  traceNr : UInt64 := 0
  deriving DecidableEq, Repr

/-- One answer of `get_trace`. -/
inductive TraceItem
  | nomem
  | buffer (b : Buffer)
  deriving DecidableEq, Repr

/-- What a fetch reports: success, or an error with what the decoder has to do. -/
inductive Fetch
  | ok
  | nodata
  | nomem
  | bad
  | nolink (refTimestamp traceNr : UInt64)
  | overrun
  deriving DecidableEq, Repr

structure Reader where
  buf : List UInt8 := []
  pos : ℕ := 0
  pktStep : ℕ := 0
  pktLen : ℕ := 0
  nextBuf : Option (List UInt8) := none
  packet : Pkt := {}
  lastPacketType : PktType := .bad
  trace : List TraceItem := []
  deriving DecidableEq, Repr

def TraceItem.size : TraceItem → ℕ
  | .nomem => 1
  | .buffer b => b.bytes.length + 1

def traceSize (t : List TraceItem) : ℕ := (t.map TraceItem.size).sum

def nextSize : Option (List UInt8) → ℕ
  | none => 0
  | some b => b.length + 1

namespace Reader

variable (r : Reader)

def unread : ℕ :=
  (r.buf.length - r.pktStep) + nextSize r.nextBuf + traceSize r.trace

def left : ℕ := r.buf.length + nextSize r.nextBuf + traceSize r.trace

/-- The reader part of `intel_pt_bad_packet`. -/
def badPacket : Fetch × Reader :=
  (.bad, { r with pktLen := 1, pktStep := 1 })

def getData : Fetch × Reader :=
  match r.trace with
  | [] => (.nodata, { r with pktStep := 0, buf := [] })
  | .nomem :: t => (.nomem, { r with pktStep := 0, trace := t })
  | .buffer b :: t =>
    let r := { r with pktStep := 0, trace := t, buf := b.bytes }
    if b.bytes = [] then (.nodata, r)
    else if b.consecutive then (.ok, r)
    else (.nolink b.refTimestamp b.traceNr, r)

def getNextData : Fetch × Reader :=
  match r.nextBuf with
  | none => r.getData
  | some b => (.ok, { r with buf := b, nextBuf := none })

def getSplitPacket : Fetch × Reader :=
  let old := r.buf
  match r.getData with
  | (.ok, r) =>
    let joined := old ++ r.buf.take (pktMaxSz - old.length)
    let got := getPacket (bytesOf joined) joined.length
    let r := { r with packet := got.2 }
    match got.1 with
    | .accept n =>
      if n < old.length then { r with nextBuf := some r.buf, buf := old }.badPacket
      else
        (.ok, { r with nextBuf := some (r.buf.drop (n - old.length)), buf := joined.take n })
    | _ => { r with nextBuf := some r.buf, buf := old }.badPacket
  | (err, r) => (err, { r with pos := r.pos + old.length })

def accepted (n : ℕ) : Pass Reader (Fetch × Reader) :=
  let r := { r with pktLen := n, pktStep := n }
  if r.packet.type = .pad then .again r else .leave (.ok, r)

def parsePass : Pass Reader (Fetch × Reader) :=
  let got := getPacket (bytesOf r.buf) r.buf.length
  let r := { r with packet := got.2 }
  match got.1 with
  | .accept n => r.accepted n
  | .reject => .leave r.badPacket
  | .more =>
    if r.buf.length < pktMaxSz ∧ r.nextBuf = none then
      match r.getSplitPacket with
      | (.ok, r) => r.accepted r.buf.length
      | (err, r) => .leave (err, r)
    else .leave r.badPacket

/-- Step over the current packet. -/
def stepOver : Reader :=
  { r with pos := r.pos + r.pktStep, buf := r.buf.drop r.pktStep }

/-- One pass of the loop in `intel_pt_get_next_packet`. -/
def nextPacketPass : Pass Reader (Fetch × Reader) :=
  if r.buf.length < r.pktStep then .leave (.overrun, r)
  else
    let r := r.stepOver
    if r.buf = [] then
      match r.getNextData with
      | (.ok, r) => r.parsePass
      | (err, r) => .leave (err, r)
    else r.parsePass

def getNextPacket : Fetch × Reader :=
  let r := { r with lastPacketType := r.packet.type }
  loop nextPacketPass (fun r => (.overrun, r)) (r.unread + 1) r

def findPsb : List UInt8 → Option ℕ
  | [] => none
  | b :: l => if psbStr <+: b :: l then some 0 else (findPsb l).map (· + 1)

def partPsb (buf : List UInt8) : ℕ :=
  ((List.range' 1 15).reverse.find? fun i =>
    i ≤ buf.length ∧ buf.drop (buf.length - i) = psbStr.take i).getD 0

def restPsb (buf : List UInt8) (part : ℕ) : ℕ :=
  let rest := psbLen - part
  if buf.length < rest ∨ buf.take rest ≠ psbStr.drop part then 0 else rest

def joinPsb (part : ℕ) : Reader :=
  let rest := restPsb r.buf part
  if rest = 0 then r
  else { r with pos := r.pos - part, nextBuf := some (r.buf.drop rest), buf := psbStr }

def skipBuffer : Reader := { r with pos := r.pos + r.buf.length, buf := [] }

def getSplitPsb (part : ℕ) : Fetch × Reader :=
  match r.skipBuffer.getNextData with
  | (.ok, r) => (.ok, r.joinPsb part)
  | (err, r) => (err, r)

def scanPass : Pass Reader (Fetch × Reader) :=
  match findPsb r.buf with
  | some k => .leave { r with pktStep := k }.getNextPacket
  | none =>
    if partPsb r.buf ≠ 0 then
      match r.getSplitPsb (partPsb r.buf) with
      | (.ok, r) => .again r
      | (err, r) => .leave (err, r)
    else .again r.skipBuffer

def scanForPsbPass : Pass Reader (Fetch × Reader) :=
  if r.buf = [] then
    match r.getNextData with
    | (.ok, r) => r.scanPass
    | (err, r) => .leave (err, r)
  else r.scanPass

def scanForPsb : Fetch × Reader :=
  loop scanForPsbPass (fun r => (.overrun, r)) (2 * r.left + 2) r

end Reader

end RPerf.Packets
