import RPerf.Queues.Switch

/-!
# The header of a trace

`intel_pt_process_auxtrace_info` of `intel-pt.c`, with `intel_pt_ns_to_ticks`, the scale of
the core bus ratio, `intel_pt_synth_events` and the sampling period of
`intel_pt_alloc_queue`.
-/

namespace RPerf.Queues

open Decode

def divBy (a : UInt64) (d : UInt32) : Option UInt64 :=
  if d = 0 then none else some (a / d.toUInt64)

def modBy (a : UInt64) (d : UInt32) : Option UInt64 :=
  if d = 0 then none else some (a % d.toUInt64)

def ticks (tc : TscConversion) (t : UInt64) : Option UInt64 := do
  let quot ← divBy t tc.timeMult
  let rem ← modBy t tc.timeMult
  let low ← divBy (rem <<< tc.timeShift.toUInt64) tc.timeMult
  return (quot <<< tc.timeShift.toUInt64) + low

/-- `intel_pt_ns_to_ticks`. -/
def nsToTicks (tc : TscConversion) (ns : UInt64) : Option UInt64 := ticks tc ns

/-- `perf_time_to_tsc`. -/
def perfTimeToTscOrStop (ns : UInt64) (tc : TscConversion) : Option UInt64 :=
  ticks tc (ns - tc.timeZero)

theorem ticks_of_zero {tc : TscConversion} (h : tc.timeMult = 0) (t : UInt64) :
    ticks tc t = none := by
  simp [ticks, divBy, h]

theorem ticks_of_ne {tc : TscConversion} (h : tc.timeMult ≠ 0) (t : UInt64) :
    ticks tc t = some (((t / tc.timeMult.toUInt64) <<< tc.timeShift.toUInt64) +
      ((t % tc.timeMult.toUInt64) <<< tc.timeShift.toUInt64) / tc.timeMult.toUInt64) := by
  simp [ticks, divBy, modBy, h]

@[simp] theorem ticks_eq_none {tc : TscConversion} {t : UInt64} :
    ticks tc t = none ↔ tc.timeMult = 0 := by
  constructor
  · intro h
    by_contra hne
    rw [ticks_of_ne hne] at h
    exact absurd h nofun
  · exact fun h => ticks_of_zero h t

/-- The words of `priv` that are used. -/
inductive InfoWord
  | pmuType | timeShift | timeMult | timeZero | capUserTimeZero | tscBit | haveSchedSwitch
  | perCpuMmaps | maxNonturboRatio | filterStrLen
  deriving DecidableEq, Repr

/-- The places of the words in `priv`. -/
def InfoWord.pos : InfoWord → ℕ
  | .pmuType => 0
  | .timeShift => 1
  | .timeMult => 2
  | .timeZero => 3
  | .capUserTimeZero => 4
  | .tscBit => 5
  | .haveSchedSwitch => 7
  | .perCpuMmaps => 9
  | .maxNonturboRatio => 15
  | .filterStrLen => 16

/-- `struct auxtrace_info_event`. -/
structure AuxtraceInfo where
  size : UInt16
  priv : InfoWord → UInt64

namespace AuxtraceInfo

variable (info : AuxtraceInfo)

/-- `intel_pt_has`. -/
def has (word : InfoWord) : Bool := 16 + 8 * (word.pos + 1) ≤ info.size.toNat

/-- The check of the size. -/
def longEnough : Bool := 16 + 8 * InfoWord.perCpuMmaps.pos ≤ info.size.toNat

def tc : TscConversion where
  timeShift := (info.priv .timeShift).toUInt16
  timeMult := (info.priv .timeMult).toUInt32
  timeZero := info.priv .timeZero

def recordedRatio : UInt32 :=
  if info.has .maxNonturboRatio then (info.priv .maxNonturboRatio).toUInt32 else 0

def pmuType (info : AuxtraceInfo) : UInt32 := (info.priv .pmuType).toUInt32

/-- `pt->have_sched_switch`. -/
def haveSchedSwitch (info : AuxtraceInfo) : ℕ := (info.priv .haveSchedSwitch).toUInt32.toNat

end AuxtraceInfo

/-- The fields of a `struct perf_evsel` that are used. -/
structure Evsel where
  type : UInt32
  config : UInt64 := 0
  sampleTime : Bool := true
  ids : Bool := true
  contextSwitch : Bool := false
  excludeKernel : Bool := false
  isSchedSwitch : Bool := false
  deriving DecidableEq, Repr

/-- `enum itrace_period_type`. -/
inductive ItracePeriod
  | instructions | ticks | nanosecs
  deriving DecidableEq, Repr

/-- The fields of `struct itrace_synth_opts` that are used. -/
structure SynthOpts where
  set : Bool := false
  instructions : Bool := false
  branches : Bool := false
  transactions : Bool := false
  ptwrites : Bool := false
  pwrEvents : Bool := false
  errors : Bool := false
  log : Bool := false
  period : UInt64 := 0
  periodType : ItracePeriod := .instructions
  deriving DecidableEq, Repr

def SynthOpts.default : SynthOpts where
  instructions := true
  branches := true
  transactions := true
  ptwrites := true
  pwrEvents := true
  errors := true
  period := 100000
  periodType := .nanosecs

/-- What of the session is read. -/
structure PerfSession where
  evlist : List Evsel
  itraceSynthOpts : Option SynthOpts := none
  dumpTrace : Bool := false
  useBrowser : Int := -1

namespace PerfSession

variable (session : PerfSession)

/-- The options of the session. -/
def synthOpts : SynthOpts :=
  match session.itraceSynthOpts with
  | some opts => if opts.set then opts else defaults
  | none => defaults
where
  defaults : SynthOpts :=
    if session.useBrowser ≠ -1 then { SynthOpts.default with branches := false }
    else SynthOpts.default

/-- `intel_pt_evsel`. -/
def ptEvsel (pmuType : UInt32) : Option Evsel :=
  session.evlist.find? fun evsel => evsel.type == pmuType && evsel.ids

/-- The loop of `intel_pt_timeless_decoding`. -/
def timelessLoop (pmuType : UInt32) (tscBit : UInt64) : Bool → List Evsel → Bool
  | timeless, [] => timeless
  | timeless, evsel :: rest =>
    if evsel.sampleTime = false then true
    else if evsel.type = pmuType then
      if evsel.config &&& tscBit ≠ 0 then timelessLoop pmuType tscBit false rest else true
    else timelessLoop pmuType tscBit timeless rest

/-- `intel_pt_timeless_decoding`. -/
def timelessDecoding (info : AuxtraceInfo) : Bool :=
  if info.priv .tscBit = 0 ∨ info.priv .capUserTimeZero = 0 then true
  else timelessLoop info.pmuType (info.priv .tscBit) true session.evlist

/-- `intel_pt_tracing_kernel`. -/
def tracingKernel (pmuType : UInt32) : Bool :=
  session.evlist.any fun evsel => evsel.type == pmuType && !evsel.excludeKernel

def hasSchedSwitch : Bool := session.evlist.any (·.isSchedSwitch)

def hasSwitchEvents (haveSchedSwitch : ℕ) : Bool :=
  if haveSchedSwitch = 1 then session.hasSchedSwitch
  else if haveSchedSwitch = 2 then session.evlist.any (·.contextSwitch)
  else true

end PerfSession

structure InfoCalls where
  init : Int := 0
  filter : Int := 0
  thread : Int := 0
  synthEvent : Synth → Int := fun _ => 0
  processIndex : Int := 0

def InfoCalls.failing (calls : InfoCalls) : List (Bool × Synth) → Int
  | [] => 0
  | (wanted, synth) :: rest =>
    if wanted = true ∧ calls.synthEvent synth ≠ 0 then calls.synthEvent synth
    else calls.failing rest

/-- The fields of `struct intel_pt` that the header sets. -/
structure HeaderPt extends Pt where
  pmuType : UInt32
  haveSchedSwitch : ℕ
  perCpuMmaps : Bool
  switchEvsel : Bool := false
  maxNonTurboRatio : UInt32 := 0
  cbr2khz : UInt32 := 0
  synthOpts : SynthOpts := {}
  deriving DecidableEq, Repr

def AuxtraceInfo.headerPt (info : AuxtraceInfo) (session : PerfSession) : HeaderPt where
  kernelStart := 0
  timelessDecoding := session.timelessDecoding info
  tc := info.tc
  sampleBranches := false
  synthErrors := false
  pmuType := info.pmuType
  haveSchedSwitch := info.haveSchedSwitch
  perCpuMmaps := info.priv .perCpuMmaps ≠ 0
  maxNonTurboRatio := info.recordedRatio

namespace HeaderPt

def ratioOf (tscFreq : UInt64) : UInt32 := ((tscFreq + 50000000) / 100000000).toUInt32

def ratio (pt : HeaderPt) (tscFreq : UInt64) : UInt32 :=
  if pt.maxNonTurboRatio = 0 then ratioOf tscFreq else pt.maxNonTurboRatio

def scale (pt : HeaderPt) : Option HeaderPt :=
  if pt.tc.timeMult = 0 then some pt
  else (nsToTicks pt.tc 1000000000).bind fun tscFreq =>
    (divBy tscFreq (pt.ratio tscFreq)).map fun quot =>
      { pt with maxNonTurboRatio := pt.ratio tscFreq, cbr2khz := (quot / 1000).toUInt32 }

def attrSamplePeriod (pt : HeaderPt) : Option UInt64 :=
  if pt.synthOpts.instructions = false then some 0
  else if pt.synthOpts.periodType = .nanosecs then nsToTicks pt.tc pt.synthOpts.period
  else some pt.synthOpts.period

/-- `intel_pt_synth_events`. -/
def synthEvents (calls : InfoCalls) (session : PerfSession) (pt : HeaderPt) :
    Option (Except Int HeaderPt) :=
  match session.ptEvsel pt.pmuType with
  | none => some (.ok pt)
  | some evsel =>
    let opts := pt.synthOpts
    let power := opts.pwrEvents && (evsel.config &&& 0x10 != 0)
    if calls.failing [(opts.branches, .branch)] ≠ 0 then
      some (.error (calls.failing [(opts.branches, .branch)]))
    else
      pt.attrSamplePeriod.map fun _ =>
        let err := calls.failing [(opts.instructions, .instruction),
          (opts.transactions, .transaction), (opts.ptwrites, .ptwrite), (opts.pwrEvents, .cbr),
          (power, .mwait), (power, .pwre), (power, .exstop), (power, .pwrx)]
        if err ≠ 0 then .error err
        else .ok { pt with
          sampleBranches := opts.branches, sampleInstructions := opts.instructions
          sampleTransactions := opts.transactions, samplePtwrites := opts.ptwrites
          samplePwrEvents := opts.pwrEvents }

def indexed (calls : InfoCalls) : Except Int HeaderPt → Except Int HeaderPt
  | .error err => .error err
  | .ok pt => if calls.processIndex ≠ 0 then .error calls.processIndex else .ok pt

def withSwitchEvsel (pt : HeaderPt) : HeaderPt :=
  { pt with switchEvsel := pt.haveSchedSwitch == 1 }

/-- `pt->synth_opts`. -/
def withOpts (pt : HeaderPt) (opts : SynthOpts) : HeaderPt :=
  { pt with synthOpts := opts, synthErrors := opts.errors }

def configure (calls : InfoCalls) (session : PerfSession) (pt : HeaderPt) :
    Option (Except Int HeaderPt) :=
  (pt.withOpts session.synthOpts).scale.bind fun pt =>
    (pt.synthEvents calls session).map (indexed calls)

end HeaderPt

def AuxtraceInfo.refuses (calls : InfoCalls) (info : AuxtraceInfo) : Int :=
  if info.longEnough = false then -22
  else if calls.init ≠ 0 then calls.init
  else if info.has .filterStrLen = true ∧ info.priv .filterStrLen ≠ 0 ∧ calls.filter ≠ 0 then
    calls.filter
  else calls.thread

/-- `intel_pt_process_auxtrace_info`. -/
def processAuxtraceInfo (calls : InfoCalls) (session : PerfSession) (info : AuxtraceInfo) :
    Option (Except Int HeaderPt) :=
  let pt := info.headerPt session
  if info.refuses calls ≠ 0 then some (.error (info.refuses calls))
  else if session.dumpTrace then some (.ok pt)
  else if session.hasSwitchEvents pt.haveSchedSwitch = false then some (.error (-22))
  else pt.withSwitchEvsel.configure calls session

def allocPeriod (opts : SynthOpts) (tc : TscConversion) : Option (PeriodType × UInt64) :=
  if opts.instructions = false then some (.none, 0)
  else
    let period : Option (PeriodType × UInt64) :=
      if opts.period = 0 then some (.none, 0)
      else
        match opts.periodType with
        | .instructions => some (.instructions, opts.period)
        | .ticks => some (.ticks, opts.period)
        | .nanosecs => (nsToTicks tc opts.period).map fun t => (.ticks, t)
    period.map fun p => if p.2 = 0 then (.instructions, 1) else p

/-- The configuration of the runs behind a header. -/
def HeaderPt.config (pt : HeaderPt) (session : PerfSession) (cfg : SwitchConfig) : SwitchConfig :=
  { cfg with
    haveSchedSwitch := pt.haveSchedSwitch
    switchEvsel := pt.switchEvsel
    perCpuMmaps := pt.perCpuMmaps
    tracingKernel := session.tracingKernel pt.pmuType
    samplingMode := false
    dumpTrace := session.dumpTrace }

/-- The start of the runs: nothing has been set up, and the buffers are those of the index. -/
structure HeaderPt.Starts (pt : HeaderPt) (s : SwitchPt) : Prop where
  pt : s.pt = pt.toPt
  syncSwitch : s.syncSwitch = false
  heap : s.heap = {}
  priv : ∀ i, s.ptq i = none
  newData : ∀ i, (s.queue i).head ≠ [] → s.queues.newData = true

end RPerf.Queues
