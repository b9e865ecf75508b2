import RPerf.Decode.State

/-!
# Walking the code

The functions of `intel-pt-decoder.c` that follow instructions: up to the next branch,
through a packet of taken/not-taken bits, to the target of a TIP and to the address of a
FUP.
-/

namespace RPerf.Decode

open Lib Packets

/-- What the decoder's functions return: zero, `INTEL_PT_RETURN`, or a negative error number. -/
inductive Status
  | ok | ret | again | nolink | nodata | nomem | badmsg | ilseq | noent | overflow | eloop
  | nosys | overrun
  deriving DecidableEq, Repr

/-- `INTEL_PT_MAX_LOOPS`. -/
def maxLoops : ℕ := 10000

/-- `intel_pt_calc_ip`. -/
def calcIp (packet : Pkt) (lastIp : UInt64) : UInt64 :=
  match packet.count with
  | 1 => (lastIp &&& 0xffffffffffff0000) ||| packet.payload
  | 2 => (lastIp &&& 0xffffffff00000000) ||| packet.payload
  | 3 =>
    if packet.payload &&& 0x800000000000 ≠ 0 then packet.payload ||| 0xffff000000000000
    else packet.payload
  | 4 => (lastIp &&& 0xffff000000000000) ||| packet.payload
  | 6 => packet.payload
  | _ => 0

section

variable (s : Sampling)

/-- `intel_pt_next_period` at the time `now`. -/
def Sampling.nextPeriod (cfg : Config) (now : UInt64) : UInt64 × Sampling :=
  let masked := now &&& cfg.periodMask
  if s.continuousPeriod then
    if masked ≠ s.lastMaskedTimestamp then (1, s) else (cfg.periodTicks - (now - masked), s)
  else
    let masked := (now + 1) &&& cfg.periodMask
    let s :=
      if masked ≠ s.lastMaskedTimestamp then
        { s with lastMaskedTimestamp := masked, continuousPeriod := true }
      else s
    (cfg.periodTicks - (now + 1 - masked), s)

def Sampling.nextSample (cfg : Config) (now : UInt64) : UInt64 × Sampling :=
  match cfg.periodType with
  | .instructions => (cfg.period - s.periodInsnCnt, s)
  | .ticks => s.nextPeriod cfg now
  | .none | .mtc => (0, s)

def Sampling.count (insnCnt : UInt64) : Sampling :=
  { s with
    totInsnCnt := s.totInsnCnt + insnCnt
    sampleInsnCnt := s.sampleInsnCnt + insnCnt
    periodInsnCnt := s.periodInsnCnt + insnCnt }

def Sampling.sample (cfg : Config) (now : UInt64) : Sampling :=
  match cfg.periodType with
  | .instructions => { s with periodInsnCnt := 0 }
  | .ticks => { s with lastMaskedTimestamp := now &&& cfg.periodMask }
  | .none | .mtc => s

end

def Progress.unconditional (p : Progress) (toIp : UInt64) : Bool × Progress :=
  let cnt := p.noProgress
  let p := { p with noProgress := cnt + 1 }
  if cnt = 0 then (false, p)
  else if cnt = 1 then (false, { p with stuckIp := toIp, stuckIpPrd := 1, stuckIpCnt := 1 })
  else if maxLoops < cnt ∨ toIp = p.stuckIp then (true, p)
  else if p.stuckIpCnt - 1 = 0 then
    (false, { p with stuckIpPrd := p.stuckIpPrd + 1, stuckIpCnt := p.stuckIpPrd + 1
                     stuckIp := toIp })
  else (false, { p with stuckIpCnt := p.stuckIpCnt - 1 })

namespace Decoder

variable (d : Decoder)

def note (e : Event) : Decoder := { d with log := e :: d.log }

def fetched (walker : Walker) : Fetch × Reader → Status × Decoder
  | (.ok, rd) =>
    (.ok, { d with rd := rd, log := .packet walker rd.packet d.haveLastIp d.lastIp :: d.log })
  | (.nodata, rd) => (.nodata, { d with rd := rd })
  | (.nomem, rd) => (.nomem, { d with rd := rd })
  | (.bad, rd) => (.badmsg, { d with rd := rd, txFlags := {}, clk.haveTma := false })
  | (.nolink refTimestamp traceNr, rd) =>
    (.nolink,
      { d with
        rd := rd
        ip := 0
        pktState := .noPsb
        clk := { d.clk with refTimestamp := refTimestamp, timestamp := 0, haveTma := false }
        st.traceNr := traceNr
        log := .gap :: d.log })
  | (.overrun, rd) => (.overrun, { d with rd := rd })

def getNextPacket (d : Decoder) (walker : Walker) : Status × Decoder :=
  (d.note (.enter walker d.rd)).fetched walker d.rd.getNextPacket

def setLastIp : Decoder :=
  { d with lastIp := calcIp d.rd.packet d.lastIp, haveLastIp := true }

def setIp : Decoder :=
  let d := d.setLastIp
  { d with ip := d.lastIp }

def bug : Status × Decoder := (.nosys, { d with pktState := .noPsb })

def noteInsn (insn : Insn) : Decoder :=
  { d with
    st := { d.st with
      insnOp := insn.op
      insnLen := insn.length
      insn := insn.buf
      flags.inTx := d.st.flags.inTx || d.txFlags.inTx } }

/-- The same from the label `out` on. -/
def progressed (insn : Insn) : Decoder :=
  { d with prog.noProgress := 0 }.noteInsn insn

variable (cfg : Config)

def sampleInsn : Decoder :=
  { d with
    smp := d.smp.sample cfg (d.clk.timestamp + d.clk.timestampInsnCnt)
    st.type.instruction := true }

def callOrRet (insn : Insn) : Bool × Decoder :=
  if insn.op = .call then
    -- zero-length calls are excluded
    if insn.branch ≠ .unconditional ∨ insn.rel ≠ 0 then
      match d.stack.push (cfg.malloc d.pushes) (insn.next d.ip) with
      | some stack => (true, { d with stack := stack, pushes := d.pushes + 1 })
      | none => (false, { d with pushes := d.pushes + 1 })
    else (true, d)
  else if insn.op = .ret then
    (true, { d with retAddr := d.stack.pop.1, stack := d.stack.pop.2 })
  else (true, d)

def unconditional (d : Decoder) (insn : Insn) : Status × Insn × Decoder :=
  let toIp := insn.target d.ip
  let r := d.prog.unconditional toIp
  let d := { d with st := { d.st with fromIp := d.ip, toIp := toIp }, ip := toIp, prog := r.2 }
  if r.1 then (.eloop, insn, { d with pktState := .errResync }.progressed insn)
  else (.ret, insn, d.noteInsn insn)

def arrive (insn : Insn) : Status × Insn × Decoder :=
  if insn.branch = .noBranch then
    let d :=
      { d with
        st := { d.st with type := { instruction := true }, fromIp := d.ip, toIp := 0 }
        ip := insn.next d.ip }
    (.ret, insn, d.progressed insn)
  else
    match d.callOrRet cfg insn with
    | (false, d) => (.nomem, insn, d.progressed insn)
    | (true, d) =>
      if insn.branch = .unconditional then d.unconditional insn
      else (.ok, insn, d.progressed insn)

/-- The decoder after the `walk_insn` callback. -/
def walked (smp : Sampling) (w : Walked) : Decoder :=
  { d with
    ip := w.ip
    smp := smp.count w.insnCnt
    clk.timestampInsnCnt := d.clk.timestampInsnCnt + w.insnCnt }

def walkInsn (d : Decoder) (cfg : Config) (ip : UInt64) : Status × Insn × Decoder :=
  let s : UInt64 × Sampling :=
    { d.smp with mtcInsn := true }.nextSample cfg (d.clk.timestamp + d.clk.timestampInsnCnt)
  let w := cfg.walkInsn d.ip ip s.1
  let d := d.walked s.2 w
  match w.err with
  | some err =>
    (if err = .noent then .nolink else .ilseq, w.insn,
      { d with prog.noProgress := 0, pktState := .noIp })
  | none =>
    if ip ≠ 0 ∧ d.ip = ip then (.again, w.insn, d.progressed w.insn)
    else
      let d := if s.1 ≠ 0 ∧ s.1 ≤ w.insnCnt then d.sampleInsn cfg else d
      d.arrive cfg w.insn

def mwaitEvent : Decoder :=
  { d with
    fup.setMwait := false
    st := { d.st with
      type := { mwaitOp := true }, fromIp := d.ip, toIp := 0
      mwaitPayload := d.fup.mwaitPayload } }

def pwreEvent : Decoder :=
  { d with
    fup.setPwre := false
    st := { d.st with
      type := { d.st.type with pwrEntry := true, branch := false }, fromIp := d.ip, toIp := 0
      pwrePayload := d.fup.pwrePayload } }

def exstopEvent : Decoder :=
  { d with
    fup.setExstop := false
    st := { d.st with
      type := { d.st.type with exStop := true, branch := false }, fromIp := d.ip, toIp := 0
      flags.fupIp := true } }

def fupEvent : Bool × Decoder :=
  if d.fup.setTxFlags then
    (true,
      { d with
        fup.setTxFlags := false
        txFlags := d.fup.txFlags
        st := { d.st with
          type := { transaction := true }, fromIp := d.ip, toIp := 0, flags := d.fup.txFlags } })
  else if d.fup.setPtw then
    (true,
      { d with
        fup.setPtw := false
        st := { d.st with
          type := { ptw := true }, fromIp := d.ip, toIp := 0, flags.fupIp := true
          ptwPayload := d.fup.ptwPayload } })
  else
    let ret := d.fup.setMwait || d.fup.setPwre || d.fup.setExstop
    let d := if d.fup.setMwait then d.mwaitEvent else d
    let d := if d.fup.setPwre then d.pwreEvent else d
    let d := if d.fup.setExstop then d.exstopEvent else d
    (ret, d)

def walkFup : Status × Decoder :=
  match d.walkInsn cfg d.lastIp with
  | (.ret, _, d) => (.ok, d)
  | (.again, _, d) =>
    match d.fupEvent with
    | (true, d) => (.ok, d)
    | (false, d) => (.again, d)
  | (.ok, _, d) => (.noent, { d with fup.setTxFlags := false, pktState := .errResync })
  | (err, _, d) => (err, { d with fup.setTxFlags := false })

def leaveRegion : Decoder :=
  { d with pge := false, smp.continuousPeriod := false, pktState := .inSync }

/-- An address at which `pgd_ip` says tracing ends. -/
def endsAt (ip : UInt64) : Bool :=
  match cfg.pgdIp with
  | none => false
  | some pgdIp => d.pktState = .tipPgd && pgdIp ip

def tipBranch : Decoder :=
  if d.pktState = .tipPgd then
    let d := { d.leaveRegion with st := { d.st with fromIp := d.ip, toIp := 0 } }
    if d.rd.packet.count ≠ 0 then { d with ip := d.lastIp } else d
  else
    let d := { d with pktState := .inSync, st.fromIp := d.ip }
    if d.rd.packet.count = 0 then { d with st.toIp := 0 }
    else { d with st.toIp := d.lastIp, ip := d.lastIp }

def walkTip : Status × Decoder :=
  match d.walkInsn cfg 0 with
  | (.ret, _, d) =>
    if d.st.type.branch ∧ d.endsAt cfg d.st.toIp then
      (.ok, { d.leaveRegion with prog.noProgress := 0, st.toIp := 0 })
    else (.ok, d)
  | (.ok, insn, d) =>
    if insn.branch = .indirect then (.ok, d.tipBranch)
    else if insn.branch = .conditional then
      let toIp := insn.target d.ip
      if d.endsAt cfg toIp then
        (.ok, { d.leaveRegion with ip := toIp, st := { d.st with fromIp := toIp, toIp := 0 } })
      else (.noent, { d with pktState := .errResync })
    else d.bug
  | (err, _, d) => (err, d)

def useBit : Decoder :=
  { d with
    tnt.count := d.tnt.count - 1
    pktState := if d.tnt.count - 1 = 0 then .inSync else d.pktState }

def shiftTnt : Decoder := { d with tnt.payload := d.tnt.payload <<< 1 }

def resync : Status × Decoder := (.noent, { d with pktState := .errResync })

def tntRet : Status × Decoder :=
  if ¬ cfg.returnCompression then d.resync
  else if d.retAddr = 0 then d.resync
  else if d.tnt.payload &&& bit63 = 0 then d.resync
  else
    let d := d.useBit.shiftTnt
    (.ok, { d with st := { d.st with fromIp := d.ip, toIp := d.retAddr }, ip := d.retAddr })

def tntIndirect : Status × Decoder :=
  match d.getNextPacket .tnt with
  | (.ok, d) =>
    if d.rd.packet.type ≠ .tip ∨ d.rd.packet.count = 0 then
      { d with rd.pktStep := 0, log := .putBack :: d.log }.resync
    else
      let d := d.setLastIp
      (.ok, { d with st := { d.st with fromIp := d.ip, toIp := d.lastIp }, ip := d.lastIp })
  | (err, d) => (err, d)

def tntConditional (insn : Insn) : Pass Decoder (Status × Decoder) :=
  let taken := d.tnt.payload &&& bit63 ≠ 0
  let d := d.useBit
  if taken then
    let d := d.shiftTnt
    let toIp := insn.target d.ip
    .leave (.ok, { d with st := { d.st with fromIp := d.ip, toIp := toIp }, ip := toIp })
  else if d.st.type.instruction then
    let d := d.shiftTnt
    .leave (.ok,
      { d with
        st := { d.st with type := { instruction := true }, fromIp := d.ip, toIp := 0 }
        ip := insn.next d.ip })
  else
    let d := { d with ip := insn.next d.ip }
    if d.tnt.count = 0 then .leave (.again, d) else .again d.shiftTnt

def walkTntPass (d : Decoder) : Pass Decoder (Status × Decoder) :=
  match d.walkInsn cfg 0 with
  | (.ret, _, d) => .leave (.ok, d)
  | (.ok, insn, d) =>
    if insn.op = .ret then .leave (d.tntRet cfg)
    else if insn.branch = .indirect then .leave d.tntIndirect
    else if insn.branch = .conditional then d.tntConditional insn
    else .leave d.bug
  | (err, _, d) => .leave (err, d)

def walkTnt : Status × Decoder :=
  loop (walkTntPass cfg) (fun d => (.overrun, d)) (d.tnt.count + 1) d

end Decoder

end RPerf.Decode
