import RPerf.Decode.Clock
import RPerf.Decode.Stack
import RPerf.Packets.Consumption

/-!
# The state of the decoder

`struct intel_pt_decoder` and the types around it.
-/

namespace RPerf.Decode

open Lib Packets

/-- `enum intel_pt_pkt_state`. -/
inductive PktState
  | noPsb | noIp | errResync | inSync | tnt | tip | tipPgd | fup | fupNoTip
  deriving DecidableEq, Repr, Inhabited

/-- `intel_pt_sample_time`. -/
def PktState.sampleTime : PktState → Bool
  | .tip | .tipPgd | .fup | .fupNoTip => false
  | _ => true

inductive PeriodType
  | none | instructions | ticks | mtc
  deriving DecidableEq, Repr

/-- `enum intel_pt_insn_op`. -/
inductive Op
  | other | call | ret | jcc | jmp | loop | iret | int | syscall | sysret
  deriving DecidableEq, Repr

/-- `enum intel_pt_insn_branch`. -/
inductive Branch
  | noBranch | indirect | conditional | unconditional
  deriving DecidableEq, Repr

/-- `struct intel_pt_insn`. -/
structure Insn where
  op : Op := .other
  branch : Branch := .noBranch
  length : ℕ := 0
  rel : Int32 := 0
  buf : List UInt8 := []
  deriving DecidableEq, Repr

/-- The address behind an instruction. -/
def Insn.next (insn : Insn) (ip : UInt64) : UInt64 := ip + UInt64.ofNat insn.length

/-- The target of a direct branch. -/
def Insn.target (insn : Insn) (ip : UInt64) : UInt64 :=
  ip + UInt64.ofInt (insn.length + insn.rel.toInt)

/-- The bits of `enum intel_pt_sample_type`. -/
structure SampleType where
  branch : Bool := false
  instruction : Bool := false
  transaction : Bool := false
  ptw : Bool := false
  mwaitOp : Bool := false
  pwrEntry : Bool := false
  exStop : Bool := false
  pwrExit : Bool := false
  cbrChg : Bool := false
  deriving DecidableEq, Repr

/-- The bits of `flags`, `tx_flags` and `fup_tx_flags`. -/
structure Flags where
  inTx : Bool := false
  abortTx : Bool := false
  async : Bool := false
  fupIp : Bool := false
  deriving DecidableEq, Repr

/-- The `INTEL_PT_ERR_` codes. -/
inductive Err
  | nomem | intern | badpkt | nodata | noinsn | mismat | ovr | lost | unk | neloop
  deriving DecidableEq, Repr

/-- `struct intel_pt_state`. -/
structure State where
  type : SampleType := {}
  err : Option Err := none
  fromIp : UInt64 := 0
  toIp : UInt64 := 0
  cr3 : UInt64 := 0
  totInsnCnt : UInt64 := 0
  timestamp : UInt64 := 0
  estTimestamp : UInt64 := 0
  traceNr : UInt64 := 0
  ptwPayload : UInt64 := 0
  mwaitPayload : UInt64 := 0
  pwrePayload : UInt64 := 0
  pwrxPayload : UInt64 := 0
  cbrPayload : UInt64 := 0
  flags : Flags := {}
  insnOp : Op := .other
  insnLen : ℕ := 0
  insn : List UInt8 := []
  deriving DecidableEq, Repr

structure Fup where
  setTxFlags : Bool := false
  setPtw : Bool := false
  setMwait : Bool := false
  setPwre : Bool := false
  setExstop : Bool := false
  txFlags : Flags := {}
  ptwPayload : UInt64 := 0
  mwaitPayload : UInt64 := 0
  pwrePayload : UInt64 := 0
  deriving DecidableEq, Repr

structure Sampling where
  totInsnCnt : UInt64 := 0
  periodInsnCnt : UInt64 := 0
  lastMaskedTimestamp : UInt64 := 0
  sampleTimestamp : UInt64 := 0
  sampleInsnCnt : UInt64 := 0
  continuousPeriod : Bool := false
  mtcInsn : Bool := false
  deriving DecidableEq, Repr

structure Progress where
  noProgress : ℕ := 0
  stuckIp : UInt64 := 0
  stuckIpPrd : ℕ := 0
  stuckIpCnt : ℕ := 0
  deriving DecidableEq, Repr

/-- The functions that fetch packets. -/
inductive Walker
  | scan | psb | toIp | psbend | trace | tnt | fupTip
  deriving DecidableEq, Repr

inductive Event
  /-- `intel_pt_get_next_packet` is entered with the reader in this state. -/
  | enter (walker : Walker) (rd : Reader)
  /-- A packet is consumed; `have_last_ip` and `last_ip` are recorded as they were then. -/
  | packet (walker : Walker) (p : Pkt) (haveLastIp : Bool) (lastIp : UInt64)
  /-- `pkt_step` is cleared, so the packet will be fetched again. -/
  | putBack
  /-- A buffer does not continue the one before it. -/
  | gap
  /-- A timing packet has moved the clock. -/
  | timed (t : Timing) (p : Pkt) (before after : Clock)
  | returned (s : State)

structure Decoder where
  rd : Reader := {}
  clk : Clock := {}
  fup : Fup := {}
  smp : Sampling := {}
  prog : Progress := {}
  st : State := {}
  ip : UInt64 := 0
  lastIp : UInt64 := 0
  haveLastIp : Bool := false
  pktState : PktState := .noPsb
  tnt : Pkt := {}
  stack : Stack := .empty
  retAddr : UInt64 := 0
  txFlags : Flags := {}
  pge : Bool := false
  cr3 : UInt64 := 0
  execMode : UInt64 := 0
  overflow : Bool := false
  cbrSeen : UInt32 := 0
  pushes : ℕ := 0
  log : List Event := []

/-- The decoder as `zalloc` leaves it, in front of a trace. -/
def Decoder.new (trace : List TraceItem) : Decoder := { rd := { trace := trace } }

inductive WalkErr
  | noent | other
  deriving DecidableEq, Repr

/-- The outputs of the `walk_insn` callback. -/
structure Walked where
  err : Option WalkErr := none
  insn : Insn := {}
  insnCnt : UInt64 := 0
  ip : UInt64 := 0
  deriving DecidableEq, Repr

/-- What the decoder is created with. -/
structure Config where
  walkInsn : UInt64 → UInt64 → UInt64 → Walked
  pgdIp : Option (UInt64 → Bool) := none
  malloc : ℕ → Bool := fun _ => true
  returnCompression : Bool := false
  branchEnable : Bool := false
  period : UInt64 := 0
  periodType : PeriodType := .none
  periodMask : UInt64 := 0
  periodTicks : UInt64 := 0
  timing : Timing := {}

end RPerf.Decode
