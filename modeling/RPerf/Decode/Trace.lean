import RPerf.Decode.Walk

/-!
# Following the trace

The packet loops of `intel-pt-decoder.c`, synchronisation, and `intel_pt_decode`, which
returns one state at a time.
-/

namespace RPerf.Decode

open Lib Packets

def txFlagsOf (payload : UInt64) : Flags :=
  { inTx := payload &&& 1 ≠ 0, abortTx := payload &&& 2 ≠ 0 }

def cr3Of (payload : UInt64) : UInt64 := payload &&& (bit63 - 1)

def Status.extErr : Status → Err
  | .nomem => .nomem
  | .nosys => .intern
  | .badmsg => .badpkt
  | .nodata => .nodata
  | .ilseq => .noinsn
  | .noent => .mismat
  | .overflow => .ovr
  | .eloop => .neloop
  | .ok | .ret | .again | .nolink | .overrun => .unk

namespace Decoder

section

variable (d : Decoder) (cfg : Config)

def time (f : Clock → Timing → Reader → Clock) : Decoder :=
  let clk := f d.clk cfg.timing d.rd
  { d with clk := clk, log := .timed cfg.timing d.rd.packet d.clk clk :: d.log }

def calcTscTimestamp (d : Decoder) (cfg : Config) : Decoder := d.time cfg Clock.calcTscTimestamp

def calcTma (d : Decoder) (cfg : Config) : Decoder := d.time cfg Clock.calcTma

def calcMtcTimestamp (d : Decoder) (cfg : Config) : Decoder := d.time cfg Clock.calcMtcTimestamp

def calcCycTimestamp (d : Decoder) (cfg : Config) : Decoder := d.time cfg Clock.calcCycTimestamp

def calcCbr (d : Decoder) (cfg : Config) : Decoder :=
  { d with clk := d.clk.calcCbr cfg.timing d.rd }

def setCr3 : Decoder := { d with cr3 := cr3Of d.rd.packet.payload }

def setExecMode : Decoder := { d with execMode := d.rd.packet.payload }

def updateInTx : Decoder :=
  { d with txFlags := { inTx := d.rd.packet.payload &&& 1 ≠ 0 } }

def dropTma : Decoder := { d with clk.haveTma := false }

def stopTracing : Decoder :=
  { d with pge := false, smp.continuousPeriod := false, txFlags := {} }

def overflowed : Status × Decoder :=
  (.overflow,
    { d with
      txFlags := {}, clk.haveTma := false, clk.cbr := 0, pktState := .errResync, overflow := true })

def mtcSample : Decoder :=
  let d := d.calcMtcTimestamp cfg
  if cfg.periodType = .mtc then { d with st.type.instruction := true } else d

def eventAt (type : SampleType) : Decoder :=
  { d with st := { d.st with type := type, fromIp := d.ip, toIp := 0 } }

def atPsb : Decoder :=
  { d with lastIp := 0, haveLastIp := true, stack := d.stack.clear }

def psbendPacket (d : Decoder) : Pass Decoder (Status × Decoder) :=
  match d.rd.packet.type with
  | .psbend => .leave (.ok, d)
  | .tipPgd | .tipPge | .tip | .tnt | .tracestop | .bad | .psb | .ptwrite | .ptwriteIp | .exstop
  | .exstopIp | .mwait | .pwre | .pwrx => .leave (.again, d.dropTma)
  | .ovf => .leave d.overflowed
  | .tsc => .again (d.calcTscTimestamp cfg)
  | .tma => .again (d.calcTma cfg)
  | .cbr => .again (d.calcCbr cfg)
  | .modeExec => .again d.setExecMode
  | .pip => .again d.setCr3
  | .fup =>
    let d := { d with pge := true }
    .again (if d.rd.packet.count ≠ 0 then d.setLastIp else d)
  | .modeTsx => .again d.updateInTx
  | .mtc => .again (d.mtcSample cfg)
  | .cyc | .vmcs | .mnt | .pad => .again d

def fetchPass (walker : Walker) (handle : Decoder → Pass Decoder (Status × Decoder))
    (d : Decoder) : Pass Decoder (Status × Decoder) :=
  match d.getNextPacket walker with
  | (.ok, d) => handle d
  | (err, d) => .leave (err, d)

def packetLoop (walker : Walker) (handle : Decoder → Pass Decoder (Status × Decoder))
    (d : Decoder) : Status × Decoder :=
  loop (fetchPass walker handle) (fun d => (.overrun, d)) (d.rd.unread + 1) d

def walkPsbend : Status × Decoder :=
  packetLoop .psbend (psbendPacket cfg) d

def fupTipPacket (d : Decoder) : Pass Decoder (Status × Decoder) :=
  match d.rd.packet.type with
  | .tnt | .fup | .tracestop | .psb | .tsc | .tma | .cbr | .modeTsx | .bad | .psbend | .ptwrite
  | .ptwriteIp | .exstop | .exstopIp | .mwait | .pwre | .pwrx => .leave d.resync
  | .ovf => .leave d.overflowed
  | .tipPgd =>
    let d := { d with st := { d.st with fromIp := d.ip, toIp := 0 } }
    let d := if d.rd.packet.count ≠ 0 then d.setIp else d
    .leave (.ok, { d with pge := false, smp.continuousPeriod := false })
  | .tipPge =>
    let d := { d with pge := true, st.fromIp := 0 }
    if d.rd.packet.count = 0 then .leave (.ok, { d with st.toIp := 0 })
    else
      let d := d.setIp
      .leave (.ok, { d with st.toIp := d.ip })
  | .tip =>
    let d := { d with st.fromIp := d.ip }
    if d.rd.packet.count = 0 then .leave (.ok, { d with st.toIp := 0 })
    else
      let d := d.setIp
      .leave (.ok, { d with st.toIp := d.ip })
  | .pip => .again d.setCr3
  | .mtc => .again (d.mtcSample cfg)
  | .cyc => .again (d.calcCycTimestamp cfg)
  | .modeExec => .again d.setExecMode
  | .vmcs | .mnt | .pad => .again d

def fupTipFlags : Decoder :=
  if d.txFlags.abortTx then
    { d with txFlags := {}, st.flags := { d.st.flags with inTx := false, abortTx := true } }
  else { d with st.flags.async := true }

def walkFupTip : Status × Decoder :=
  packetLoop .fupTip (fupTipPacket cfg) d.fupTipFlags

end

inductive Turn
  | stop (r : Status × Decoder)
  | next (noTip : Bool) (d : Decoder)
  | fetch (noTip : Bool) (d : Decoder)

variable (cfg : Config)

section

variable (noTip : Bool) (d : Decoder)

def tntPacket : Turn :=
  if d.rd.packet.count = 0 then .fetch noTip d
  else
    match { d with tnt := d.rd.packet, pktState := .tnt }.walkTnt cfg with
    | (.again, d) => .fetch noTip d
    | r => .stop r

def tipPacket (pktState : PktState) (d : Decoder) : Turn :=
  let d := if d.rd.packet.count ≠ 0 then d.setLastIp else d
  .stop ({ d with pktState := pktState }.walkTip cfg)

def tipPgePacket : Turn :=
  let d := { d with pge := true }
  if d.rd.packet.count = 0 then .fetch noTip d
  else
    let d := d.setIp
    .stop (.ok, { d with st := { d.st with fromIp := 0, toIp := d.ip } })

def fupPacket : Turn :=
  if d.rd.packet.count = 0 then .fetch false d
  else
    let d := d.setLastIp
    if ¬ cfg.branchEnable then
      match { d with ip := d.lastIp }.fupEvent with
      | (true, d) => .stop (.ok, d)
      | (false, d) => .fetch false d
    else
      let noTip := noTip || d.fup.setMwait
      match d.walkFup cfg with
      | (.again, d) => if noTip then .fetch false d else .stop (d.walkFupTip cfg)
      | (.ok, d) => .stop (.ok, { d with pktState := if noTip then .fupNoTip else .fup })
      | r => .stop r

def psbPacketInSync : Turn :=
  match d.atPsb.walkPsbend cfg with
  | (.again, d) => .next noTip d
  | (.ok, d) => .fetch noTip d
  | r => .stop r

def mtcPacket : Turn :=
  let d := d.calcMtcTimestamp cfg
  if cfg.periodType ≠ .mtc then .fetch noTip d
  else if ¬ d.smp.mtcInsn then .fetch noTip d
  else
    let d := { d with smp.mtcInsn := false }
    if d.clk.timestamp = 0 then .fetch noTip d
    else .stop (.ok, d.eventAt { instruction := true })

def cbrPacket : Turn :=
  let d := d.calcCbr cfg
  if ¬ cfg.branchEnable ∧ d.clk.cbr ≠ d.cbrSeen then
    let d := { d with cbrSeen := d.clk.cbr }.eventAt { cbrChg := true }
    .stop (.ok, { d with st.cbrPayload := d.rd.packet.payload })
  else .fetch noTip d

def modeTsxPacket : Turn :=
  if ¬ d.pge then .fetch noTip d.updateInTx
  else
    let fupTxFlags := txFlagsOf d.rd.packet.payload
    match d.getNextPacket .trace with
    | (.ok, d) =>
      if d.rd.packet.type = .fup then
        .next (noTip || !fupTxFlags.abortTx)
          { d with fup := { d.fup with txFlags := fupTxFlags, setTxFlags := true } }
      else .next noTip d.updateInTx
    | r => .stop r

def expectFup (mark : Decoder → Decoder) : Turn :=
  match d.getNextPacket .trace with
  | (.ok, d) => if d.rd.packet.type = .fup then .next true (mark d) else .next noTip d
  | r => .stop r

def ptwriteIpPacket : Turn :=
  expectFup noTip { d with fup.ptwPayload := d.rd.packet.payload }
    fun d => { d with fup.setPtw := true }

def exstopIpPacket : Turn :=
  expectFup noTip d fun d => { d with fup.setExstop := true }

def mwaitPacket : Decoder :=
  { d with fup := { d.fup with mwaitPayload := d.rd.packet.payload, setMwait := true } }

def pwrePacket : Turn :=
  if d.fup.setMwait then
    .fetch noTip
      { d with fup := { d.fup with pwrePayload := d.rd.packet.payload, setPwre := true } }
  else
    let d := d.eventAt { pwrEntry := true }
    .stop (.ok, { d with st.pwrxPayload := d.rd.packet.payload })

def tracePacket : Turn :=
  match d.rd.packet.type with
  | .tnt => tntPacket cfg noTip d
  | .tipPgd => tipPacket cfg .tipPgd d
  | .tipPge => tipPgePacket noTip d
  | .ovf => .stop d.overflowed
  | .tip => tipPacket cfg .tip d
  | .fup => fupPacket cfg noTip d
  | .tracestop => .fetch noTip d.stopTracing.dropTma
  | .psb => psbPacketInSync cfg noTip d
  | .pip => .fetch noTip d.setCr3
  | .mtc => mtcPacket cfg noTip d
  | .tsc => .fetch noTip (d.calcTscTimestamp cfg)
  | .tma => .fetch noTip (d.calcTma cfg)
  | .cyc => .fetch noTip (d.calcCycTimestamp cfg)
  | .cbr => cbrPacket cfg noTip d
  | .modeExec => .fetch noTip d.setExecMode
  | .modeTsx => modeTsxPacket noTip d
  | .bad => .stop d.bug
  | .psbend | .vmcs | .mnt | .pad => .fetch noTip d
  | .ptwriteIp => ptwriteIpPacket noTip d
  | .ptwrite =>
    let d := d.eventAt { ptw := true }
    .stop (.ok, { d with st.ptwPayload := d.rd.packet.payload })
  | .mwait => .fetch noTip d.mwaitPacket
  | .pwre => pwrePacket noTip d
  | .exstopIp => exstopIpPacket noTip d
  | .exstop => .stop (.ok, d.eventAt { exStop := true })
  | .pwrx =>
    let d := d.eventAt { pwrExit := true }
    .stop (.ok, { d with st.pwrxPayload := d.rd.packet.payload })

end

/-- One turn of `intel_pt_walk_trace`, from the label `next` to the label `next`. -/
def tracePass (s : Bool × Decoder) : Pass (Bool × Decoder) (Status × Decoder) :=
  match tracePacket cfg s.1 s.2 with
  | .stop r => .leave r
  | .next noTip d => .again (noTip, d)
  | .fetch noTip d =>
    match d.getNextPacket .trace with
    | (.ok, d) => .again (noTip, d)
    | r => .leave r

def walkTrace (d : Decoder) (cfg : Config) : Status × Decoder :=
  match d.getNextPacket .trace with
  | (.ok, d) => loop (tracePass cfg) (fun s => (.overrun, s.2)) (d.rd.unread + 1) (false, d)
  | r => r

end Decoder

end RPerf.Decode
