import RPerf.Decode.Trace

/-!
# Synchronising, and the decoder's entry point

Finding a PSB and an IP to start from, and `intel_pt_decode`, which goes on from whatever
the last call left behind and returns the next state.
-/

namespace RPerf.Decode

open Lib Packets

namespace Decoder

section

variable (d : Decoder)

/-- `intel_pt_have_ip`: the packet's IP can be expanded. -/
def haveIp : Bool :=
  d.rd.packet.count ≠ 0 ∧ (d.haveLastIp ∨ d.rd.packet.count = 3 ∨ d.rd.packet.count = 6)

def setIpIfKnown : Decoder := if d.haveIp then d.setIp else d

def psbBroken : Status × Decoder :=
  (.noent, { d with clk.haveTma := false, pktState := if d.ip ≠ 0 then .inSync else .errResync })

variable (cfg : Config)

def psbPacket (d : Decoder) : Pass Decoder (Status × Decoder) :=
  match d.rd.packet.type with
  | .tipPgd => .leave (.noent, { d with smp.continuousPeriod := false })
  | .tipPge | .tip | .ptwrite | .ptwriteIp | .exstop | .exstopIp | .mwait | .pwre | .pwrx =>
    .leave (.noent, d)
  | .fup => .again { d with pge := true }.setIpIfKnown
  | .mtc => .again (d.calcMtcTimestamp cfg)
  | .tsc => .again (d.calcTscTimestamp cfg)
  | .tma => .again (d.calcTma cfg)
  | .cyc => .again (d.calcCycTimestamp cfg)
  | .cbr => .again (d.calcCbr cfg)
  | .pip => .again d.setCr3
  | .modeExec => .again d.setExecMode
  | .modeTsx => .again d.updateInTx
  | .tracestop => .leave d.stopTracing.psbBroken
  | .tnt => .leave d.psbBroken
  | .bad => .leave d.bug
  | .ovf => .leave d.overflowed
  | .psbend => .leave (.ok, d)
  | .psb | .vmcs | .mnt | .pad => .again d

def walkPsb : Status × Decoder :=
  packetLoop .psb (psbPacket cfg) d

def foundIp : Pass Decoder (Status × Decoder) :=
  if d.ip ≠ 0 then .leave (.ok, d) else .again d

def toIpPsb (d : Decoder) : Pass Decoder (Status × Decoder) :=
  match d.atPsb.walkPsb cfg with
  | (.ok, d) => if d.ip ≠ 0 then .leave (.ok, { d with st.type := {} }) else .again d
  | r => .leave r

def toIpPacket (d : Decoder) : Pass Decoder (Status × Decoder) :=
  match d.rd.packet.type with
  | .tipPgd => { d with smp.continuousPeriod := false, pge := false }.setIpIfKnown.foundIp
  | .tipPge | .tip => { d with pge := true }.setIpIfKnown.foundIp
  | .fup => d.setIpIfKnown.foundIp
  | .mtc => .again (d.calcMtcTimestamp cfg)
  | .tsc => .again (d.calcTscTimestamp cfg)
  | .tma => .again (d.calcTma cfg)
  | .cyc => .again (d.calcCycTimestamp cfg)
  | .cbr => .again (d.calcCbr cfg)
  | .pip => .again d.setCr3
  | .modeExec => .again d.setExecMode
  | .modeTsx => .again d.updateInTx
  | .ovf => .leave d.overflowed
  | .bad => .leave d.bug
  | .tracestop => .again d.stopTracing.dropTma
  | .psb => toIpPsb cfg d
  | .tnt | .psbend | .vmcs | .mnt | .pad | .ptwrite | .ptwriteIp | .exstop | .exstopIp | .mwait
  | .pwre | .pwrx => .again d

def walkToIp : Status × Decoder :=
  packetLoop .toIp (toIpPacket cfg) d

def clearFupEvents : Decoder :=
  { d with
    fup := { d.fup with
      setTxFlags := false, setPtw := false, setMwait := false, setPwre := false
      setExstop := false } }

def syncIp : Status × Decoder :=
  let d := d.clearFupEvents
  if ¬ cfg.branchEnable then
    (.ok, { d with pktState := .inSync, overflow := false, st.type := {} })
  else
    match d.walkToIp cfg with
    | (.ok, d) =>
      (.ok,
        { d with
          pktState := .inSync
          overflow := false
          st := { d.st with fromIp := 0, toIp := d.ip } })
    | r => r

def scanForPsb (d : Decoder) : Status × Decoder := d.fetched .scan d.rd.scanForPsb

def startOver : Decoder :=
  { d with
    pge := false, smp.continuousPeriod := false, haveLastIp := false, lastIp := 0, ip := 0
    stack := d.stack.clear }

def foundPsb : Decoder := { d with haveLastIp := true, pktState := .noIp }

def forgetIp : Decoder := { d with haveLastIp := false, lastIp := 0, ip := 0 }

def sync : Status × Decoder :=
  match d.startOver.scanForPsb with
  | (.ok, d) =>
    match d.foundPsb.walkPsb cfg with
    | (.ok, d) =>
      if d.ip ≠ 0 then (.ok, { d with st.type := {}, pktState := .inSync }) else d.syncIp cfg
    | r => r
  | r => r

def enterSync : Decoder := { d with pktState := .inSync }

def resume : Status × Decoder :=
  match d.pktState with
  | .noPsb => d.sync cfg
  | .noIp => d.forgetIp.syncIp cfg
  | .errResync => d.syncIp cfg
  | .inSync => d.walkTrace cfg
  | .tnt =>
    match d.walkTnt cfg with
    | (.again, d) => d.walkTrace cfg
    | r => r
  | .tip | .tipPgd => d.walkTip cfg
  | .fup =>
    match d.enterSync.walkFup cfg with
    | (.again, d) => d.walkFupTip cfg
    | (.ok, d) => (.ok, { d with pktState := .fup })
    | r => r
  | .fupNoTip =>
    match d.enterSync.walkFup cfg with
    | (.again, d) => d.walkTrace cfg
    | r => r

def startState : Decoder :=
  { d with st := { d.st with type := { branch := true }, flags := {} } }

/-- One pass of the loop in `intel_pt_decode`. -/
def decodePass (d : Decoder) : Pass Decoder (Status × Decoder) :=
  match d.startState.resume cfg with
  | (.nolink, d) => .again d
  | r => .leave r

def estTimestamp : UInt64 :=
  let est := d.smp.sampleInsnCnt <<< 1
  let ratio := cfg.timing.maxNonTurboRatio
  d.smp.sampleTimestamp +
    if d.clk.cbr = 0 ∨ ratio = 0 then est else est * ratio.toUInt64 / d.clk.cbr.toUInt64

def sampleTime : Decoder :=
  { d with smp := { d.smp with
      sampleTimestamp := d.clk.timestamp, sampleInsnCnt := d.clk.timestampInsnCnt } }

def seeCbr : Decoder :=
  if d.clk.cbr ≠ d.cbrSeen ∧ d.st.type ≠ {} then
    { d with
      cbrSeen := d.clk.cbr
      st := { d.st with type.cbrChg := true, cbrPayload := d.clk.cbrPayload } }
  else d

end

/-- What `intel_pt_decode` does after its loop. -/
def conclude (cfg : Config) (r : Status × Decoder) : Decoder :=
  let d := r.2
  let d :=
    if r.1 ≠ .ok then
      { d with st := { d.st with err := some r.1.extErr, fromIp := d.ip } }.sampleTime
    else
      let d := { d with st.err := none }.seeCbr
      if d.pktState.sampleTime then d.sampleTime else d
  let d :=
    { d with st := { d.st with
        timestamp := d.smp.sampleTimestamp
        estTimestamp := d.estTimestamp cfg
        cr3 := d.cr3
        totInsnCnt := d.smp.totInsnCnt } }
  d.note (.returned d.st)

def decode (d : Decoder) (cfg : Config) : Decoder :=
  conclude cfg (loop (decodePass cfg) (fun d => (.overrun, d)) (2 * d.rd.unread + 3) d)

/-- The decoder after a sequence of calls. -/
def run (d : Decoder) (cfgs : List Config) : Decoder := cfgs.foldl decode d

end Decoder

end RPerf.Decode
