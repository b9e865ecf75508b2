import RPerf.Packets.Reader

/-!
# The decoder's clock

The timing functions of `intel-pt-decoder.c`.
-/

namespace RPerf.Decode

open Lib Packets

def multdiv (t : UInt64) (n d : UInt32) : UInt64 :=
  if d = 0 then 0
  else t / d.toUInt64 * n.toUInt64 + t % d.toUInt64 * n.toUInt64 / d.toUInt64

/-- The part of the decoder's parameters that time is computed from. -/
structure Timing where
  mtcShift : UInt32 := 0
  ctcRemMask : UInt32 := 0
  tscCtcRatioN : UInt32 := 0
  tscCtcRatioD : UInt32 := 0
  tscCtcMult : UInt32 := 0
  tscSlip : UInt32 := 0x100
  maxNonTurboRatio : UInt32 := 0
  maxNonTurboRatioFp : Float := 0
  toU64 : Float → UInt64 := fun _ => 0

/-- The timing fields as `intel_pt_decoder_new` sets them. -/
def Timing.new (toU64 : Float → UInt64) (maxNonTurboRatio mtcPeriod ratioN ratioD : UInt32) :
    Timing :=
  let d := if ratioN = 0 then 0 else ratioD
  let slip : UInt32 := if d = 0 then 0 else (multdiv (2 <<< mtcPeriod).toUInt64 ratioN d).toUInt32
  { mtcShift := mtcPeriod
    ctcRemMask := (1 <<< mtcPeriod) - 1
    tscCtcRatioN := ratioN
    tscCtcRatioD := d
    tscCtcMult := if d ≠ 0 ∧ ratioN % d = 0 then ratioN / d else 0
    tscSlip := if slip < 0x100 then 0x100 else slip
    maxNonTurboRatio := maxNonTurboRatio
    maxNonTurboRatioFp := maxNonTurboRatio.toFloat
    toU64 := toU64 }

structure Clock where
  timestamp : UInt64 := 0
  tscTimestamp : UInt64 := 0
  refTimestamp : UInt64 := 0
  ctcTimestamp : UInt64 := 0
  ctcDelta : UInt64 := 0
  cycleCnt : UInt64 := 0
  cycRefTimestamp : UInt64 := 0
  timestampInsnCnt : UInt64 := 0
  cbrPayload : UInt64 := 0
  lastMtc : UInt32 := 0
  cbr : UInt32 := 0
  haveTma : Bool := false
  haveCyc : Bool := false
  fixupLastMtc : Bool := false
  haveCalcCycToTsc : Bool := false
  cbrCycToTsc : Float := 0
  calcCycToTsc : Float := 0

structure CtcCount where
  ctcDelta : UInt64
  lastMtc : UInt32
  haveTma : Bool
  fixupLastMtc : Bool

def Clock.ctc (clk : Clock) : CtcCount :=
  ⟨clk.ctcDelta, clk.lastMtc, clk.haveTma, clk.fixupLastMtc⟩

def topByte : UInt64 := 0xff00000000000000

def tscWrap : UInt64 := 0x100000000000000

def halfWrap : UInt64 := 0x80000000000000

section

variable (t : Timing)

def Timing.ctcTicks (ctc : UInt64) : UInt64 :=
  if t.tscCtcMult ≠ 0 then ctc * t.tscCtcMult.toUInt64
  else multdiv ctc t.tscCtcRatioN t.tscCtcRatioD

def Timing.remTicks (ctcRem : UInt32) : UInt64 :=
  if t.tscCtcMult ≠ 0 then (ctcRem * t.tscCtcMult).toUInt64
  else multdiv ctcRem.toUInt64 t.tscCtcRatioN t.tscCtcRatioD

def fixupLastMtc (mtc mtcShift lastMtc : UInt32) : UInt32 :=
  let firstMissingBit : UInt32 := 1 <<< (16 - mtcShift)
  let mask := ~~~(firstMissingBit - 1)
  let lastMtc := lastMtc ||| (mtc &&& mask)
  if mtc ≤ lastMtc then (lastMtc - firstMissingBit) &&& 0xff else lastMtc

def mtcDelta (mtc lastMtc : UInt32) : UInt32 :=
  if lastMtc < mtc then mtc - lastMtc else mtc + 256 - lastMtc

/-- `struct intel_pt_calc_cyc_to_tsc_info`. -/
structure CycInfo where
  cycleCnt : UInt64 := 0
  cbr : UInt32 := 0
  lastMtc : UInt32
  ctcTimestamp : UInt64
  ctcDelta : UInt64
  tscTimestamp : UInt64
  timestamp : UInt64
  haveTma : Bool
  fixupLastMtc : Bool
  fromMtc : Bool
  cbrCycToTsc : Float := 0

inductive Lookahead
  | more (info : CycInfo)
  | stop (ratio : Option Float)

variable (clk : Clock)

def calcRatio (info : CycInfo) (timestamp : UInt64) : Lookahead :=
  let info :=
    if info.cbr = 0 ∧ clk.cbr ≠ 0 then
      { info with cbr := clk.cbr, cbrCycToTsc := clk.cbrCycToTsc }
    else info
  if info.cycleCnt = 0 then .stop none
  else
    let ratio := (timestamp - clk.timestamp).toFloat / info.cycleCnt.toFloat
    if info.cbr ≠ 0 ∧ ratio > info.cbrCycToTsc ∧ ratio / info.cbrCycToTsc > 1.25 then .stop none
    else .stop (some ratio)

def calcCycCb (info : CycInfo) (packet : Pkt) (last : PktType) : Lookahead :=
  match packet.type with
  | .tnt | .tipPge | .tip | .fup | .psb | .pip | .modeExec | .modeTsx | .psbend | .pad | .vmcs
  | .mnt | .ptwrite | .ptwriteIp => .more info
  | .mtc =>
    if ¬ info.haveTma then .more info
    else
      let mtc := packet.payload.toUInt32
      let info :=
        if 8 < t.mtcShift ∧ info.fixupLastMtc then
          { info with fixupLastMtc := false, lastMtc := fixupLastMtc mtc t.mtcShift info.lastMtc }
        else info
      let delta := (mtcDelta mtc info.lastMtc <<< t.mtcShift).toUInt64
      let info := { info with ctcDelta := info.ctcDelta + delta, lastMtc := mtc }
      let timestamp := info.ctcTimestamp + t.ctcTicks info.ctcDelta
      if timestamp < info.timestamp then .stop none
      else if last ≠ .cyc then .more { info with timestamp := timestamp }
      else calcRatio clk info timestamp
  | .tsc =>
    if info.fromMtc then .stop none
    else
      let timestamp := packet.payload ||| (info.timestamp &&& topByte)
      let timestamp := if timestamp < info.timestamp then timestamp + tscWrap else timestamp
      if last ≠ .cyc then .more { info with tscTimestamp := timestamp, timestamp := timestamp }
      else calcRatio clk info timestamp
  | .tma =>
    if info.fromMtc then .stop none
    else if t.tscCtcRatioD = 0 then .more info
    else
      let ctc := packet.payload.toUInt32
      .more { info with
        lastMtc := (ctc >>> t.mtcShift) &&& 0xff
        ctcTimestamp := info.tscTimestamp - UInt64.ofNat packet.count
          - t.remTicks (ctc &&& t.ctcRemMask)
        ctcDelta := 0, haveTma := true, fixupLastMtc := true }
  | .cyc => .more { info with cycleCnt := info.cycleCnt + packet.payload }
  | .cbr =>
    let cbr := packet.payload.toUInt32
    if info.cbr ≠ 0 ∧ info.cbr ≠ cbr then .stop none
    else .more { info with cbr := cbr, cbrCycToTsc := t.maxNonTurboRatioFp / cbr.toFloat }
  | _ => .stop none

def lookaheadPass (s : List UInt8 × ℕ × PktType × CycInfo) :
    Pass (List UInt8 × ℕ × PktType × CycInfo) (Option Float) :=
  let (buf, pktLen, last, info) := s
  let buf := buf.drop pktLen
  if buf = [] then .leave none
  else
    match getPacket (bytesOf buf) buf.length with
    | (.accept n, packet) =>
      if packet.type = .pad then .again (buf, n, last, info)
      else
        match calcCycCb t clk info packet last with
        | .more info => .again (buf, n, packet.type, info)
        | .stop ratio => .leave ratio
    | _ => .leave none

def lookahead (rd : Reader) (info : CycInfo) : Option Float :=
  loop (lookaheadPass t clk) (fun _ => none) (rd.buf.length + 2)
    (rd.buf, rd.pktStep, rd.lastPacketType, info)

end

namespace Clock

variable (clk : Clock)

def cycInfo (fromMtc : Bool) : CycInfo :=
  { lastMtc := clk.lastMtc, ctcTimestamp := clk.ctcTimestamp, ctcDelta := clk.ctcDelta
    tscTimestamp := clk.tscTimestamp, timestamp := clk.timestamp, haveTma := clk.haveTma
    fixupLastMtc := clk.fixupLastMtc, fromMtc := fromMtc }

variable (t : Timing) (rd : Reader)

/-- `intel_pt_calc_cyc_to_tsc`. -/
def calcCycToTscFrom (fromMtc : Bool) : Clock :=
  if ¬ fromMtc then clk
  else
    match lookahead t clk rd (clk.cycInfo fromMtc) with
    | none => clk
    | some ratio => { clk with calcCycToTsc := ratio, haveCalcCycToTsc := true }

def restartCyc (fromMtc : Bool) : Clock :=
  if rd.lastPacketType = .cyc then
    let clk := { clk with cycRefTimestamp := clk.timestamp, cycleCnt := 0
                          haveCalcCycToTsc := false }
    clk.calcCycToTscFrom t rd fromMtc
  else clk

def anchorTsc (ref payload : UInt64) : UInt64 :=
  let timestamp := payload ||| (ref &&& topByte)
  if timestamp < ref then
    if ref - timestamp > halfWrap then timestamp + tscWrap else timestamp
  else if timestamp - ref > halfWrap then timestamp - tscWrap
  else timestamp

def advanceTsc (slip now payload : UInt64) : UInt64 × UInt64 :=
  let timestamp := payload ||| (now &&& topByte)
  if timestamp < now then
    if now - timestamp < slip then (timestamp, now)
    else (timestamp + tscWrap, timestamp + tscWrap)
  else (timestamp, timestamp)

def calcTscTimestamp : Clock :=
  let clk := { clk with haveTma := false }
  let clk :=
    if clk.refTimestamp ≠ 0 then
      let timestamp := anchorTsc clk.refTimestamp rd.packet.payload
      { clk with tscTimestamp := timestamp, timestamp := timestamp, refTimestamp := 0
                 timestampInsnCnt := 0 }
    else if clk.timestamp ≠ 0 then
      let r := advanceTsc t.tscSlip.toUInt64 clk.timestamp rd.packet.payload
      { clk with tscTimestamp := r.1, timestamp := r.2, timestampInsnCnt := 0 }
    else clk
  clk.restartCyc t rd false

def calcTma : Clock :=
  if t.tscCtcRatioD = 0 then clk
  else
    let ctc := rd.packet.payload.toUInt32
    { clk with
      lastMtc := (ctc >>> t.mtcShift) &&& 0xff
      ctcTimestamp := clk.tscTimestamp - UInt64.ofNat rd.packet.count
        - t.remTicks (ctc &&& t.ctcRemMask)
      ctcDelta := 0, haveTma := true, fixupLastMtc := true }

def calcMtcTimestamp : Clock :=
  if ¬ clk.haveTma then clk
  else
    let mtc := rd.packet.payload.toUInt32
    let clk :=
      if 8 < t.mtcShift ∧ clk.fixupLastMtc then
        { clk with fixupLastMtc := false
                   lastMtc := Decode.fixupLastMtc mtc t.mtcShift clk.lastMtc }
      else clk
    let delta := (mtcDelta mtc clk.lastMtc <<< t.mtcShift).toUInt64
    let clk := { clk with ctcDelta := clk.ctcDelta + delta }
    let timestamp := clk.ctcTimestamp + t.ctcTicks clk.ctcDelta
    let clk :=
      { clk with timestamp := if timestamp < clk.timestamp then clk.timestamp else timestamp
                 timestampInsnCnt := 0, lastMtc := mtc }
    clk.restartCyc t rd true

def calcCbr : Clock :=
  let cbr := rd.packet.payload.toUInt32 &&& 0xff
  let clk := { clk with cbrPayload := rd.packet.payload }
  if clk.cbr = cbr then clk
  else { clk with cbr := cbr, cbrCycToTsc := t.maxNonTurboRatioFp / cbr.toFloat }

def calcCycTimestamp : Clock :=
  let clk := { clk with haveCyc := true, cycleCnt := clk.cycleCnt + rd.packet.payload }
  let scaled (ratio : Float) : Clock :=
    let timestamp := t.toU64 (clk.cycRefTimestamp.toFloat + clk.cycleCnt.toFloat * ratio)
    { clk with timestamp := if timestamp < clk.timestamp then clk.timestamp else timestamp
               timestampInsnCnt := 0 }
  if clk.cycRefTimestamp = 0 then clk
  else if clk.haveCalcCycToTsc then scaled clk.calcCycToTsc
  else if clk.cbr ≠ 0 then scaled clk.cbrCycToTsc
  else clk

end Clock

end RPerf.Decode
