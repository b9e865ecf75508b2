import RPerf.Queues.Merge
import RPerf.Queues.QueueArray

/-!
# Queues and context switches

`intel_pt_process_event`, `intel_pt_process_auxtrace_event` and `intel_pt_flush` of
`intel-pt.c` with all that they do to the queues: setting up, running the decoders in the
order of the heap, and `sync_switch`.
-/

namespace RPerf.Queues

open Function Lib Decode

structure Thread where
  pid : Int
  cpu : Int
  deriving DecidableEq, Repr

structure Machine where
  currentTid : ℕ → Int := fun _ => -1
  threads : Int → Option Thread := fun _ => none

namespace Machine

/-- `MAX_NR_CPUS`. -/
def maxNrCpus : Int := 1024

/-- `machine__get_current_tid`. -/
def getCurrentTid (m : Machine) (cpu : Int) : Int :=
  if cpu < 0 ∨ maxNrCpus ≤ cpu then -1 else m.currentTid cpu.toNat

/-- `machine__set_current_tid`. -/
def setCurrentTid (m : Machine) (cpu pid tid : Int) : Int × Machine :=
  if cpu < 0 ∨ maxNrCpus ≤ cpu then (-22, m)
  else
    let pid := match m.threads tid with
      | some thread => if thread.pid = -1 then pid else thread.pid
      | none => pid
    (0, {
      currentTid := update m.currentTid cpu.toNat tid
      threads := update m.threads tid (some ⟨pid, cpu⟩) })

end Machine

/-- `enum switch_state`. -/
inductive SwitchState
  | notTracing | unknown | tracing | expectingSwitchEvent | expectingSwitchIp
  deriving DecidableEq, Repr

/-- `struct intel_pt_queue`, with the fields for switches. -/
structure SwitchPtq extends Ptq where
  queueNr : ℕ
  pid : Int := -1
  tid : Int := -1
  cpu : Int := -1
  nextTid : Int := -1
  thread : Option Thread := none
  switchState : SwitchState := .notTracing
  ranDry : Bool := false
  deriving DecidableEq, Repr

/-- The bits of `ptq->flags` that switches depend on. -/
structure IpFlags where
  branch : Bool := false
  call : Bool := false
  conditional : Bool := false
  async : Bool := false
  interrupt : Bool := false
  txAbort : Bool := false
  deriving DecidableEq, Repr

/-- `intel_pt_insn_type`. -/
def insnType : Op → IpFlags
  | .other => {}
  | .call | .syscall => { branch := true, call := true }
  | .ret | .jmp | .sysret => { branch := true }
  | .jcc | .loop => { branch := true, conditional := true }
  | .iret => { branch := true, interrupt := true }
  | .int => { branch := true, call := true, interrupt := true }

/-- `intel_pt_sample_flags`. -/
def sampleFlags (state : State) : IpFlags :=
  if state.flags.abortTx then { branch := true, txAbort := true }
  else if state.flags.async then
    if state.toIp ≠ 0 then { branch := true, call := true, async := true, interrupt := true }
    else { branch := true }
  else if state.fromIp ≠ 0 then insnType state.insnOp
  else { branch := true }

theorem kernelStart_ne_zero : (0x8000000000000000 : UInt64) ≠ 0 := by decide

/-- The fields of `struct intel_pt` that stay, and what the outside returns. -/
structure SwitchConfig where
  kernelStart : UInt64 := 0x8000000000000000
  kernelStart_ne : kernelStart ≠ 0 := by exact kernelStart_ne_zero
  switchIp : UInt64 := 0
  ptssIp : UInt64 := 0
  haveSchedSwitch : ℕ := 0
  switchEvsel : Bool := false
  perCpuMmaps : Bool := true
  tracingKernel : Bool := true
  samplingMode : Bool := false
  dataQueued : Bool := false
  dumpTrace : Bool := false
  orderedEvents : Bool := true
  filterCpu : Int → Bool := fun _ => false
  realloc : ℕ → Bool := fun _ => true
  deliver : ℕ → ℕ → Int := fun _ _ => 0

/-- `intel_pt_is_switch_ip`, for where a state goes to. -/
def SwitchConfig.isSwitchIp (cfg : SwitchConfig) (state : State) : Bool :=
  let flags := sampleFlags state
  state.toIp == cfg.switchIp && flags.branch &&
    !(flags.conditional || flags.async || flags.interrupt || flags.txAbort)

abbrev SwitchQueue := AuxtraceQueue (List State) SwitchPtq

/-- `intel_pt_set_pid_tid_cpu`. -/
def SwitchPtq.setPidTidCpu (cfg : SwitchConfig) (machine : Machine) (queue : SwitchQueue)
    (q : SwitchPtq) : SwitchPtq :=
  let q := if queue.tid = -1 ∨ cfg.haveSchedSwitch ≠ 0 then
      { q with tid := machine.getCurrentTid q.cpu, thread := none }
    else q
  let q := if q.thread = none ∧ q.tid ≠ -1 then { q with thread := machine.threads q.tid } else q
  match q.thread with
  | some thread =>
    { q with pid := thread.pid, cpu := if queue.cpu = -1 then thread.cpu else q.cpu }
  | none => q

section

variable (cfg : SwitchConfig) (machine : Machine) (queue : SwitchQueue) (q : SwitchPtq)

theorem setPidTidCpu_spec : ∃ pid tid cpu thread,
    q.setPidTidCpu cfg machine queue =
      { q with pid := pid, tid := tid, cpu := cpu, thread := thread } := by
  unfold SwitchPtq.setPidTidCpu
  dsimp only
  split <;> split_ifs <;> exact ⟨_, _, _, _, rfl⟩

@[simp] theorem setPidTidCpu_toPtq : (q.setPidTidCpu cfg machine queue).toPtq = q.toPtq := by
  obtain ⟨pid, tid, cpu, thread, h⟩ := setPidTidCpu_spec cfg machine queue q
  rw [h]

@[simp] theorem setPidTidCpu_queueNr : (q.setPidTidCpu cfg machine queue).queueNr = q.queueNr := by
  obtain ⟨pid, tid, cpu, thread, h⟩ := setPidTidCpu_spec cfg machine queue q
  rw [h]

@[simp] theorem setPidTidCpu_nextTid : (q.setPidTidCpu cfg machine queue).nextTid = q.nextTid := by
  obtain ⟨pid, tid, cpu, thread, h⟩ := setPidTidCpu_spec cfg machine queue q
  rw [h]

@[simp] theorem setPidTidCpu_switchState :
    (q.setPidTidCpu cfg machine queue).switchState = q.switchState := by
  obtain ⟨pid, tid, cpu, thread, h⟩ := setPidTidCpu_spec cfg machine queue q
  rw [h]

end

def SwitchPtq.stamped (q : SwitchPtq) (state : State) (rest : List State) : SwitchPtq :=
  { q with
    outputs := rest, ranDry := false, state := state, haveSample := true
    timestamp := state.timestamp }

/-- What a queue can change while it is run. -/
structure Running where
  syncSwitch : Bool
  machine : Machine
  ptq : SwitchPtq

/-- What has been sampled, with the thread that it was handed on for. -/
structure Delivered where
  tid : Int
  sampled : Sampled
  deriving DecidableEq, Repr

namespace Running

variable (cfg : SwitchConfig) (pt : Pt) (queue : SwitchQueue)

/-- `intel_pt_next_tid`. -/
def nextTid (r : Running) : Int × Running :=
  if r.ptq.nextTid = -1 then (0, r)
  else
    let (err, machine) := r.machine.setCurrentTid r.ptq.cpu (-1) r.ptq.nextTid
    (err, { r with
      machine := machine
      ptq := { r.ptq.setPidTidCpu cfg machine queue with nextTid := -1 } })

variable (r : Running)

@[simp] theorem nextTid_syncSwitch : (r.nextTid cfg queue).2.syncSwitch = r.syncSwitch := by
  unfold nextTid
  split <;> rfl

@[simp] theorem nextTid_toPtq : (r.nextTid cfg queue).2.ptq.toPtq = r.ptq.toPtq := by
  unfold nextTid
  split <;> simp

@[simp] theorem nextTid_queueNr : (r.nextTid cfg queue).2.ptq.queueNr = r.ptq.queueNr := by
  unfold nextTid
  split <;> simp

@[simp] theorem nextTid_switchState :
    (r.nextTid cfg queue).2.ptq.switchState = r.ptq.switchState := by
  unfold nextTid
  split <;> simp

def withState (state : SwitchState) : Running :=
  { r with ptq := { r.ptq with switchState := state } }

def switch : Int × Running :=
  let state := r.ptq.state
  if cfg.isSwitchIp state then
    match r.ptq.switchState with
    | .unknown | .expectingSwitchIp =>
      let (err, r) := r.nextTid cfg queue
      if err ≠ 0 then (err, r) else (0, r.withState .tracing)
    | _ => (1, r.withState .expectingSwitchEvent)
  else if state.toIp = 0 then (0, r.withState .notTracing)
  else if r.ptq.switchState = .notTracing then (0, r.withState .unknown)
  else if r.ptq.switchState = .unknown ∧ state.toIp = cfg.ptssIp ∧ (sampleFlags state).call then
    (0, r.withState .tracing)
  else (0, r)

/-- `intel_pt_sample`. -/
def sample (r : Running) : Int × Running × List Delivered :=
  let (err, q, sampled) := Queues.sample pt (cfg.deliver r.ptq.queueNr) r.ptq.toPtq
  let delivered := sampled.map (Delivered.mk r.ptq.tid)
  let taken := { r with ptq := { r.ptq with toPtq := q } }
  if err ≠ 0 then (err, taken, delivered)
  else if r.ptq.haveSample && r.ptq.state.type.branch && r.syncSwitch then
    let (err, r) := taken.switch cfg queue
    (err, r, delivered)
  else (0, taken, delivered)

def decoded (outputs : List State) (ranDry : Bool) : Running :=
  { r with ptq := { r.ptq with outputs := outputs, ranDry := ranDry } }

def arrived (state : State) : Running :=
  let timestamp := if pt.estTsc && pt.returnsToUser state then state.estTimestamp
    else if r.syncSwitch && r.ptq.switchState == .unknown && cfg.isSwitchIp state &&
      r.ptq.nextTid == -1 then state.estTimestamp
    else if r.ptq.timestamp < state.timestamp then state.timestamp
    else r.ptq.timestamp
  { r with ptq := { r.ptq with state := state, haveSample := true, timestamp := timestamp } }

/-- An error in the kernel turns `sync_switch` off. -/
def failed (state : State) : Running :=
  if r.syncSwitch && pt.kernelStart ≤ state.fromIp then
    ({ r with syncSwitch := false }.nextTid cfg queue).2
  else r

def counted : Running :=
  { r with ptq := { r.ptq with deliveries := r.ptq.deliveries + 1 } }

end Running

structure SwitchRun where
  ret : Int
  timestamp : UInt64
  running : Running
  sampled : List Delivered

def SwitchRun.after (sampled : List Delivered) (out : SwitchRun) : SwitchRun :=
  { out with sampled := sampled ++ out.sampled }

/-- The loop of `intel_pt_run_decoder`. -/
def switchLoop (cfg : SwitchConfig) (pt : Pt) (queue : SwitchQueue) (timestamp : UInt64) :
    List State → Running → SwitchRun
  | outputs, r =>
    let (err, r, sampled) := r.sample cfg pt queue
    if err ≠ 0 then ⟨err, timestamp, r.decoded outputs r.ptq.ranDry, sampled⟩
    else
      match outputs with
      | [] => ⟨1, timestamp, r.decoded [] true, sampled⟩
      | state :: rest =>
        match state.err with
        | some .nodata => ⟨1, timestamp, r.decoded rest true, sampled⟩
        | some _ =>
          let r := (r.decoded rest false).failed cfg pt queue state
          if pt.synthErrors then
            let err := cfg.deliver r.ptq.queueNr r.ptq.deliveries
            if err ≠ 0 then ⟨err, timestamp, r.counted, sampled⟩
            else (switchLoop cfg pt queue timestamp rest r.counted).after sampled
          else (switchLoop cfg pt queue timestamp rest r).after sampled
        | none =>
          let r := (r.decoded rest false).arrived cfg pt state
          if !pt.timelessDecoding && timestamp ≤ r.ptq.timestamp then
            ⟨0, r.ptq.timestamp, r, sampled⟩
          else (switchLoop cfg pt queue timestamp rest r).after sampled

/-- `intel_pt_set_pid_tid_cpu` and `intel_pt_run_decoder`. -/
def runSwitch (cfg : SwitchConfig) (pt : Pt) (queue : SwitchQueue) (timestamp : UInt64)
    (r : Running) : SwitchRun :=
  switchLoop cfg pt queue timestamp r.ptq.outputs
    { r with ptq := r.ptq.setPidTidCpu cfg r.machine queue }

/-- The ways a call of `intel_pt_run_decoder` can go. -/
inductive SwitchRuns (cfg : SwitchConfig) (pt : Pt) (queue : SwitchQueue) (timestamp : UInt64) :
    List State → Running → SwitchRun → Prop
  /-- Sampling fails, or it parks the queue. -/
  | stopped {outputs r err r' xs} (hs : r.sample cfg pt queue = (err, r', xs)) (he : err ≠ 0) :
    SwitchRuns cfg pt queue timestamp outputs r
      ⟨err, timestamp, r'.decoded outputs r'.ptq.ranDry, xs⟩
  | dry {r r' xs} (hs : r.sample cfg pt queue = (0, r', xs)) :
    SwitchRuns cfg pt queue timestamp [] r ⟨1, timestamp, r'.decoded [] true, xs⟩
  | nodata {state rest r r' xs} (hs : r.sample cfg pt queue = (0, r', xs))
    (he : state.err = some .nodata) :
    SwitchRuns cfg pt queue timestamp (state :: rest) r ⟨1, timestamp, r'.decoded rest true, xs⟩
  /-- Handing an error on fails. -/
  | lost {state rest e r r' r₁ n xs} (hs : r.sample cfg pt queue = (0, r', xs))
    (he : state.err = some e) (hr₁ : r₁ = (r'.decoded rest false).failed cfg pt queue state)
    (hd : cfg.deliver r₁.ptq.queueNr n ≠ 0) :
    SwitchRuns cfg pt queue timestamp (state :: rest) r
      ⟨cfg.deliver r₁.ptq.queueNr n, timestamp, r₁.counted, xs⟩
  | error {state rest e r r' r₁ out xs} (hs : r.sample cfg pt queue = (0, r', xs))
    (he : state.err = some e) (hne : e ≠ .nodata)
    (hr₁ : r₁ = (r'.decoded rest false).failed cfg pt queue state ∨
      r₁ = ((r'.decoded rest false).failed cfg pt queue state).counted)
    (hrun : SwitchRuns cfg pt queue timestamp rest r₁ out) :
    SwitchRuns cfg pt queue timestamp (state :: rest) r (out.after xs)
  /-- The queue has reached the time it was to run to. -/
  | reached {state rest r r' r₁ xs} (hs : r.sample cfg pt queue = (0, r', xs))
    (he : state.err = none) (hr₁ : r₁ = (r'.decoded rest false).arrived cfg pt state)
    (hle : timestamp ≤ r₁.ptq.timestamp) :
    SwitchRuns cfg pt queue timestamp (state :: rest) r ⟨0, r₁.ptq.timestamp, r₁, xs⟩
  | next {state rest r r' out xs} (hs : r.sample cfg pt queue = (0, r', xs))
    (he : state.err = none)
    (hrun : SwitchRuns cfg pt queue timestamp rest ((r'.decoded rest false).arrived cfg pt state)
      out) :
    SwitchRuns cfg pt queue timestamp (state :: rest) r (out.after xs)

theorem switchLoop_runs (cfg : SwitchConfig) (pt : Pt) (queue : SwitchQueue) (timestamp : UInt64)
    (outputs : List State) (r : Running) :
    SwitchRuns cfg pt queue timestamp outputs r
      (switchLoop cfg pt queue timestamp outputs r) := by
  induction outputs generalizing r with
  | nil =>
    rcases hs : r.sample cfg pt queue with ⟨err, r', xs⟩
    simp only [switchLoop, hs]
    split
    · next he => exact .stopped hs he
    · next he =>
      obtain rfl := not_not.mp he
      exact .dry hs
  | cons state rest ih =>
    rcases hs : r.sample cfg pt queue with ⟨err, r', xs⟩
    rw [switchLoop]
    simp only [hs]
    split
    · next he => exact .stopped hs he
    · next he =>
      obtain rfl := not_not.mp he
      split
      · next hnodata => exact .nodata hs hnodata
      · next e hne herr =>
        have hother : e ≠ .nodata := fun h => hne (h ▸ rfl)
        split
        · split
          · next hd => exact .lost hs herr rfl hd
          · exact .error hs herr hother (.inr rfl) (ih _)
        · exact .error hs herr hother (.inl rfl) (ih _)
      · next hnone =>
        split
        · next hle =>
          simp only [Bool.and_eq_true, decide_eq_true_eq] at hle
          exact .reached hs hnone rfl hle.2
        · exact .next hs hnone (ih _)

/-- The fields of `struct intel_pt` that change. -/
structure SwitchPt where
  pt : Pt
  syncSwitch : Bool := false
  queues : AuxtraceQueues (List State) SwitchPtq := .init
  heap : AuxtraceHeap := {}
  machine : Machine := {}
  sampled : List (ℕ × Delivered) := []

namespace SwitchPt

variable (cfg : SwitchConfig)

section

variable (s : SwitchPt)

def queue (i : ℕ) : SwitchQueue := s.queues.queueArray i

def ptq (i : ℕ) : Option SwitchPtq := (s.queue i).priv

def store (i : ℕ) (q : SwitchPtq) : SwitchPt :=
  { s with queues := s.queues.attach i q }

def newPtq (queue : SwitchQueue) (i : ℕ) : SwitchPtq :=
  { outputs := queue.head.flatMap (·.data), queueNr := i, cpu := queue.cpu, tid := queue.tid }

def keeps (q : SwitchPtq) : Bool :=
  q.onHeap || (s.syncSwitch && q.switchState == .expectingSwitchEvent) || s.pt.timelessDecoding

end

/-- `intel_pt_setup_queue`. -/
def setupQueue (i : ℕ) (s : SwitchPt) : Int × SwitchPt :=
  if (s.queue i).head.isEmpty then (0, s)
  else
    let q := (s.ptq i).getD (newPtq (s.queue i) i)
    if s.keeps q then (0, s.store i q)
    else
      match gettingTimestamp q.outputs with
      | (none, rest) => (0, s.store i { q with outputs := rest, ranDry := true })
      | (some state, rest) =>
        let q := q.stamped state rest
        let (ret, heap) := s.heap.add cfg.realloc i q.timestamp
        if ret ≠ 0 then (ret, { s.store i q with heap := heap })
        else (0, { s.store i { q with onHeap := true } with heap := heap })

/-- The loop of `intel_pt_setup_queues`. -/
def setupEach : List ℕ → SwitchPt → Int × SwitchPt
  | [], s => (0, s)
  | i :: rest, s =>
    let (ret, s) := s.setupQueue cfg i
    if ret ≠ 0 then (ret, s) else setupEach rest s

variable (s : SwitchPt)

/-- `intel_pt_update_queues`. -/
def updateQueues : Int × SwitchPt :=
  if s.queues.newData then
    { s with queues := { s.queues with newData := false } }.setupEach cfg
      (List.range s.queues.nrQueues.toNat)
  else (0, s)

def enter : SwitchPt :=
  if s.pt.kernelStart = 0 then
    let syncs := cfg.perCpuMmaps && (cfg.haveSchedSwitch == 1 || cfg.haveSchedSwitch == 3) &&
      !s.pt.timelessDecoding && cfg.tracingKernel && !cfg.samplingMode && cfg.switchIp != 0
    { s with
      pt := { s.pt with kernelStart := cfg.kernelStart }, syncSwitch := s.syncSwitch || syncs }
  else s

def runs (i : ℕ) (q : SwitchPtq) (timestamp : UInt64) : SwitchRun × SwitchPt :=
  let s := s.enter cfg
  let out := runSwitch cfg s.pt (s.queue i) timestamp ⟨s.syncSwitch, s.machine, q⟩
  (out, { s.store i out.running.ptq with
    syncSwitch := out.running.syncSwitch, machine := out.running.machine
    sampled := s.sampled ++ out.sampled.map fun x => (i, x) })

/-- A pass of the loop of `intel_pt_process_queues`. -/
def pass (timestamp : UInt64) (s : SwitchPt) : Pass SwitchPt (Int × SwitchPt) :=
  if s.heap.heapCnt = 0 then .leave (0, s)
  else if timestamp ≤ (s.heap.heapArray 0).ordinal then .leave (0, s)
  else
    let i := (s.heap.heapArray 0).queueNr
    let heap := s.heap.pop
    match s.ptq i with
    | none => .leave (0, s)
    | some q =>
      let (out, s) := s.runs cfg i q (runBound heap timestamp)
      if out.ret < 0 then
        .leave (out.ret, { s with heap := (heap.add cfg.realloc i out.timestamp).2 })
      else if out.ret = 0 then
        let (ret, heap) := heap.add cfg.realloc i out.timestamp
        if ret < 0 then .leave (ret, { s with heap := heap }) else .again { s with heap := heap }
      else
        .again { s.store i { out.running.ptq with onHeap := false } with heap := heap }

/-- The ways `intel_pt_setup_queue` can go. -/
inductive SetsUp (s : SwitchPt) (i : ℕ) (q : SwitchPtq) : Int × SwitchPt → Prop
  | empty (hempty : (s.queue i).head = []) : SetsUp s i q (0, s)
  | kept (hne : (s.queue i).head ≠ []) (hkeeps : s.keeps q = true) :
    SetsUp s i q (0, s.store i q)
  | dry {rest} (hne : (s.queue i).head ≠ []) (hkeeps : s.keeps q = false)
    (hnone : gettingTimestamp q.outputs = (none, rest)) :
    SetsUp s i q (0, s.store i { q with outputs := rest, ranDry := true })
  | failed {state rest ret heap} (hne : (s.queue i).head ≠ []) (hkeeps : s.keeps q = false)
    (hsome : gettingTimestamp q.outputs = (some state, rest))
    (hadd : s.heap.add cfg.realloc i state.timestamp = (ret, heap)) (hret : ret ≠ 0) :
    SetsUp s i q (ret, { s.store i (q.stamped state rest) with heap := heap })
  | added {state rest heap} (hne : (s.queue i).head ≠ []) (hkeeps : s.keeps q = false)
    (hsome : gettingTimestamp q.outputs = (some state, rest))
    (hadd : s.heap.add cfg.realloc i state.timestamp = (0, heap)) :
    SetsUp s i q (0, { s.store i { q.stamped state rest with onHeap := true } with heap := heap })

theorem setsUp_setupQueue (i : ℕ) :
    SetsUp cfg s i ((s.ptq i).getD (newPtq (s.queue i) i)) (s.setupQueue cfg i) := by
  unfold setupQueue
  dsimp only
  generalize (s.ptq i).getD (newPtq (s.queue i) i) = q
  by_cases hempty : (s.queue i).head = []
  · rw [if_pos (List.isEmpty_iff.mpr hempty)]
    exact .empty hempty
  · rw [if_neg (fun h => hempty (List.isEmpty_iff.mp h))]
    split
    · next hkeeps => exact .kept hempty hkeeps
    · next hkeeps =>
      rw [Bool.not_eq_true] at hkeeps
      split
      · next rest hnone => exact .dry hempty hkeeps hnone
      · next state rest hsome =>
        rcases hadd : s.heap.add cfg.realloc i state.timestamp with ⟨ret, heap⟩
        have hadd' : s.heap.add cfg.realloc i (q.stamped state rest).timestamp = (ret, heap) :=
          hadd
        rw [hadd']
        dsimp only
        split
        · next hret => exact .failed hempty hkeeps hsome hadd hret
        · next hret =>
          obtain rfl := not_not.mp hret
          exact .added hempty hkeeps hsome hadd

/-- The ways a pass can go. -/
inductive Passes (timestamp : UInt64) (s : SwitchPt) : Pass SwitchPt (Int × SwitchPt) → Prop
  | idle (hidle : s.heap.heapCnt = 0 ∨ timestamp ≤ (s.heap.heapArray 0).ordinal) :
    Passes timestamp s (.leave (0, s))
  | missing (h0 : s.heap.heapCnt ≠ 0) (hnone : s.ptq (s.heap.heapArray 0).queueNr = none) :
    Passes timestamp s (.leave (0, s))
  /-- The decoder or the heap fails. -/
  | failed {i q out s' ret heap err} (h0 : s.heap.heapCnt ≠ 0)
    (hi : (s.heap.heapArray 0).queueNr = i) (hq : s.ptq i = some q)
    (hrun : s.runs cfg i q (runBound s.heap.pop timestamp) = (out, s'))
    (hadd : s.heap.pop.add cfg.realloc i out.timestamp = (ret, heap)) (herr : err < 0) :
    Passes timestamp s (.leave (err, { s' with heap := heap }))
  | back {i q out s' ret heap} (h0 : s.heap.heapCnt ≠ 0)
    (hi : (s.heap.heapArray 0).queueNr = i) (hq : s.ptq i = some q)
    (hrun : s.runs cfg i q (runBound s.heap.pop timestamp) = (out, s')) (hret : out.ret = 0)
    (hadd : s.heap.pop.add cfg.realloc i out.timestamp = (ret, heap)) :
    Passes timestamp s (.again { s' with heap := heap })
  | off {i q out s'} (h0 : s.heap.heapCnt ≠ 0)
    (hi : (s.heap.heapArray 0).queueNr = i) (hq : s.ptq i = some q)
    (hrun : s.runs cfg i q (runBound s.heap.pop timestamp) = (out, s')) (hret : 0 < out.ret) :
    Passes timestamp s
      (.again { s'.store i { out.running.ptq with onHeap := false } with heap := s.heap.pop })

theorem passes_pass (timestamp : UInt64) (s : SwitchPt) :
    Passes cfg timestamp s (s.pass cfg timestamp) := by
  unfold pass
  split
  · next h0 => exact .idle (.inl h0)
  · next h0 =>
    split
    · next hle => exact .idle (.inr hle)
    · dsimp only
      split
      · next hnone => exact .missing h0 hnone
      · next q hq =>
        rcases hrun : s.runs cfg _ q (runBound s.heap.pop timestamp) with ⟨out, s'⟩
        rcases hadd : s.heap.pop.add cfg.realloc _ out.timestamp with ⟨ret, heap⟩
        dsimp only
        split_ifs with hneg hzero hfail
        · exact .failed h0 rfl hq hrun hadd hneg
        · exact .failed h0 rfl hq hrun hadd hfail
        · exact .back h0 rfl hq hrun hzero hadd
        · exact .off h0 rfl hq hrun (by omega)

/-- A step of `intel_pt_process_timeless_queues`. -/
def runTimeless (tid : Int) (s : SwitchPt) (i : ℕ) : SwitchPt :=
  match s.ptq i with
  | some q => if tid = -1 ∨ q.tid = tid then (s.runs cfg i q 0).2 else s
  | none => s

/-- `intel_pt_process_timeless_queues`. -/
def processTimelessQueues (tid : Int) (s : SwitchPt) : SwitchPt :=
  (List.range s.queues.nrQueues.toNat).foldl (runTimeless cfg tid) s

end SwitchPt

/-- `perf_time_to_tsc`. -/
def perfTimeToTsc (ns : UInt64) (tc : TscConversion) : UInt64 :=
  let t := ns - tc.timeZero
  let quot := t / tc.timeMult.toUInt64
  let rem := t % tc.timeMult.toUInt64
  (quot <<< tc.timeShift.toUInt64) + (rem <<< tc.timeShift.toUInt64) / tc.timeMult.toUInt64

def SwitchPtq.onSwitch (tid : Int) (tsc : UInt64) (q : SwitchPtq) : Int × SwitchPtq :=
  match q.switchState with
  | .notTracing => (1, { q with nextTid := -1 })
  | .unknown | .tracing => (0, { q with nextTid := tid, switchState := .expectingSwitchIp })
  | .expectingSwitchEvent =>
    if q.onHeap then (1, { q with switchState := .tracing })
    else (1, { q with timestamp := tsc, onHeap := true, switchState := .tracing })
  | .expectingSwitchIp => (1, { q with nextTid := tid })

/-- An event with its sample. -/
inductive EventKind
  | aux (truncated : Bool) (lost : Int)
  | sample (isSwitch : Bool) (nextPid : Int)
  | itraceStart (pid tid : Int)
  | switch (out : Bool)
  | switchCpuWide (out : Bool) (nextPrevPid nextPrevTid : Int)
  | exit (tid : Int)
  | other
  deriving DecidableEq, Repr

structure SideEvent where
  kind : EventKind
  time : UInt64
  cpu : Int := -1
  pid : Int := -1
  tid : Int := -1
  deriving DecidableEq, Repr

namespace SwitchPt

variable (cfg : SwitchConfig)

/-- `intel_pt_sync_switch`. -/
def syncSwitchTo (cpu tid : Int) (time : UInt64) (s : SwitchPt) : Int × SwitchPt :=
  if s.syncSwitch = false then (1, s)
  else
    match (s.queues.cpuToQueue cpu).bind fun i => (s.ptq i).map fun q => (i, q) with
    | none => (1, s)
    | some (i, q) =>
      let (ret, q') := q.onSwitch tid (perfTimeToTsc time s.pt.tc)
      if q'.onHeap = q.onHeap then (ret, s.store i q')
      else
        let (err, heap) := s.heap.add cfg.realloc q.queueNr q'.timestamp
        if err ≠ 0 then (err, { s.store i { q with timestamp := q'.timestamp } with heap := heap })
        else (ret, { s.store i q' with heap := heap })

def setCurrentTid (cpu pid tid : Int) (s : SwitchPt) : Int × SwitchPt :=
  let (err, machine) := s.machine.setCurrentTid cpu pid tid
  (err, { s with machine := machine })

def switchTo (cpu pid tid : Int) (time : UInt64) (s : SwitchPt) : Int × SwitchPt :=
  let (ret, s) := s.syncSwitchTo cfg cpu tid time
  if ret ≤ 0 then (ret, s) else s.setCurrentTid cpu pid tid

section

variable (e : SideEvent)

/-- `intel_pt_process_switch`. -/
def processSwitch (isSwitch : Bool) (nextPid : Int) (s : SwitchPt) : Int × SwitchPt :=
  if isSwitch then s.switchTo cfg e.cpu (-1) nextPid e.time else (0, s)

/-- `intel_pt_context_switch`. -/
def contextSwitch (out : Bool) (nextPrev : Option (Int × Int)) (s : SwitchPt) : Int × SwitchPt :=
  let go (pid tid : Int) : Int × SwitchPt :=
    if tid = -1 then (-22, s) else s.switchTo cfg e.cpu pid tid e.time
  if cfg.haveSchedSwitch = 3 then
    if out = false then (0, s)
    else
      match nextPrev with
      | none => (-22, s)
      | some (pid, tid) => go pid tid
  else if out then (0, s)
  else go e.pid e.tid

variable (s : SwitchPt)

/-- The end of `intel_pt_process_event`. -/
def finish : Int × SwitchPt :=
  match e.kind with
  | .aux truncated lost => (if truncated && s.pt.synthErrors then lost else 0, s)
  | .sample isSwitch nextPid =>
    if cfg.switchEvsel then s.processSwitch cfg e isSwitch nextPid else (0, s)
  | .itraceStart pid tid => if cfg.perCpuMmaps then s.setCurrentTid e.cpu pid tid else (0, s)
  | .switch out => s.contextSwitch cfg e out none
  | .switchCpuWide out pid tid => s.contextSwitch cfg e out (some (pid, tid))
  | .exit _ | .other => (0, s)

def eventTsc : UInt64 :=
  if e.time ≠ 0 ∧ e.time ≠ 0xffffffffffffffff then perfTimeToTsc e.time s.pt.tc else 0

def RunsUpTo (r : Int × SwitchPt) : Prop :=
  if s.pt.timelessDecoding then
    match e.kind with
    | .exit tid => r = (0, s.processTimelessQueues cfg tid)
    | _ => r = (0, s)
  else if s.eventTsc e ≠ 0 then Leaves (pass cfg (s.eventTsc e)) s r
  else r = (0, s)

/-- `intel_pt_process_event`. -/
def ProcessEvent (r : Int × SwitchPt) : Prop :=
  if cfg.dumpTrace then r = (0, s)
  else if cfg.orderedEvents = false then r = (-22, s)
  else
    let (err, s₁) := if s.eventTsc e ≠ 0 || s.pt.timelessDecoding then s.updateQueues cfg
      else (0, s)
    if err ≠ 0 then r = (err, s₁)
    else ∃ ret s₂, RunsUpTo cfg e s₁ (ret, s₂) ∧
      r = if ret ≠ 0 then (ret, s₂) else s₂.finish cfg e

end

/-- `MAX_TIMESTAMP`. -/
def maxTimestamp : UInt64 := 0xffffffffffffffff

/-- `intel_pt_flush`. -/
def Flush (s : SwitchPt) (r : Int × SwitchPt) : Prop :=
  if cfg.dumpTrace then r = (0, s)
  else if cfg.orderedEvents = false then r = (-22, s)
  else
    let (ret, s₁) := s.updateQueues cfg
    if ret < 0 then r = (ret, s₁)
    else if s₁.pt.timelessDecoding then r = (0, s₁.processTimelessQueues cfg (-1))
    else Leaves (pass cfg maxTimestamp) s₁ r

def feed (i : ℕ) (states : List State) (s : SwitchPt) : SwitchPt :=
  match s.ptq i with
  | some q => s.store i { q with outputs := q.outputs ++ states, ranDry := false }
  | none => s

/-- `intel_pt_process_auxtrace_event`. -/
def processAuxtraceEvent (idx : UInt32) (buffer : AuxtraceBuffer (List State)) (s : SwitchPt) :
    Option (Int × SwitchPt) :=
  if cfg.samplingMode || cfg.dataQueued || cfg.filterCpu buffer.cpu then some (0, s)
  else (s.queues.addBuffer idx buffer).map fun (err, queues) =>
    let s := { s with queues := queues }
    (err, if err = 0 then s.feed idx.toNat buffer.data else s)

/-- The parts of an event and of a flush keep `I`. -/
structure Preserved (I : SwitchPt → Prop) : Prop where
  update : ∀ s, I s → I (s.updateQueues cfg).2
  pass : ∀ timestamp s, I s → (s.pass cfg timestamp).Satisfies I fun r => I r.2
  timeless : ∀ tid s, s.pt.timelessDecoding = true → I s → I (s.processTimelessQueues cfg tid)
  sync : ∀ cpu tid time s, I s → I (s.syncSwitchTo cfg cpu tid time).2
  machine : ∀ machine s, I s → I { s with machine := machine }

section

variable {cfg} {I : SwitchPt → Prop} {s : SwitchPt} {e : SideEvent} {r : Int × SwitchPt}

theorem Preserved.switchTo (hI : Preserved cfg I) (cpu pid tid : Int) (time : UInt64) (hs : I s) :
    I (s.switchTo cfg cpu pid tid time).2 := by
  have hsync := hI.sync cpu tid time s hs
  unfold SwitchPt.switchTo
  dsimp only
  split
  · exact hsync
  · exact hI.machine _ _ hsync

theorem Preserved.contextSwitch (hI : Preserved cfg I) (out : Bool) (nextPrev : Option (Int × Int))
    (hs : I s) : I (s.contextSwitch cfg e out nextPrev).2 := by
  have hgo (pid tid : Int) :
      I (if tid = -1 then ((-22 : Int), s) else s.switchTo cfg e.cpu pid tid e.time).2 := by
    split
    · exact hs
    · exact hI.switchTo _ _ _ _ hs
  unfold SwitchPt.contextSwitch
  dsimp only
  split
  · split
    · exact hs
    · split
      · exact hs
      · exact hgo _ _
  · split
    · exact hs
    · exact hgo _ _

theorem Preserved.finish (hI : Preserved cfg I) (hs : I s) : I (s.finish cfg e).2 := by
  unfold SwitchPt.finish
  split
  · exact hs
  · split
    · unfold processSwitch
      split
      · exact hI.switchTo _ _ _ _ hs
      · exact hs
    · exact hs
  · split
    · exact hI.machine _ _ hs
    · exact hs
  · exact hI.contextSwitch _ _ hs
  · exact hI.contextSwitch _ _ hs
  · exact hs
  · exact hs

theorem Preserved.processQueues (hI : Preserved cfg I) {timestamp : UInt64}
    (h : Leaves (SwitchPt.pass cfg timestamp) s r) (hs : I s) : I r.2 :=
  h.invariant (hI.pass timestamp) hs

theorem Preserved.runsUpTo (hI : Preserved cfg I) (h : RunsUpTo cfg e s r) (hs : I s) : I r.2 := by
  unfold RunsUpTo at h
  split_ifs at h with htimeless
  · split at h
    · subst h
      exact hI.timeless _ s htimeless hs
    · subst h
      exact hs
  · exact hI.processQueues h hs
  · subst h
    exact hs

theorem Preserved.processEvent (hI : Preserved cfg I) (h : ProcessEvent cfg e s r) (hs : I s) :
    I r.2 := by
  have hupdate : I
      (if s.eventTsc e ≠ 0 || s.pt.timelessDecoding then s.updateQueues cfg else (0, s)).2 := by
    split
    · exact hI.update s hs
    · exact hs
  unfold ProcessEvent at h
  generalize (if s.eventTsc e ≠ 0 || s.pt.timelessDecoding then s.updateQueues cfg
    else (0, s)) = out at h hupdate
  obtain ⟨err, s₁⟩ := out
  split_ifs at h
  · subst h
    exact hs
  · subst h
    exact hs
  · dsimp only at h hupdate
    split_ifs at h
    · subst h
      exact hupdate
    · obtain ⟨ret, s₂, hruns, rfl⟩ := h
      have hs₂ := hI.runsUpTo hruns hupdate
      split
      · exact hs₂
      · exact hI.finish hs₂

theorem Preserved.flush (hI : Preserved cfg I) (h : Flush cfg s r) (hs : I s) : I r.2 := by
  have hupdate := hI.update s hs
  unfold Flush at h
  split_ifs at h
  · subst h
    exact hs
  · subst h
    exact hs
  · dsimp only at h
    split_ifs at h with _ htimeless
    · subst h
      exact hupdate
    · subst h
      exact hI.timeless _ _ htimeless hupdate
    · exact hI.processQueues h hupdate

end

end SwitchPt

end RPerf.Queues
