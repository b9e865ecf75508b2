import RPerf.Queues.LastBranch
import RPerf.Queues.RunDecoder
import RPerf.Threads.CallChain

/-!
# The samples of decoded states

`intel_pt_sample` of `intel-pt.c`, with the functions that make the samples. For each state
a decoder has returned up to nine samples are made.
-/

namespace RPerf.Queues.Synthesis

open Function (update update_self update_of_ne)

structure Options extends Pt, BranchOptions where
  threads : ℕ → Threads.Thread := fun _ => {}
  env : Threads.Env
  deliver : ℕ → Int := fun _ => 0
  id : Synth → UInt64 := fun _ => 0
  branchesFilter : UInt32 := 0
  callchain : Bool := false
  threadStack : Bool := false
  callchainSz : ℕ := 0
  lastBranch : Bool := false
  initialSkip : UInt64 := 0
  maxNonTurboRatio : UInt32 := 0
  cbr2khz : UInt32 := 0
  sortModeBranch : Bool := false

/-- A state the decoder of a queue returns, with the thread that runs then. -/
structure Arrival where
  queue : ℕ
  state : Decode.State := {}
  timestamp : UInt64 := 0
  pid : Int := -1
  tid : Int := -1
  cpu : Int := -1
  thread : Option ℕ := none

/-- The same in `struct intel_pt_queue`, with what `intel_pt_sample_flags` adds. -/
structure Received extends Arrival where
  flags : UInt32 := 0
  insnLen : UInt16 := 0
  insn : List UInt8 := []

/-- The `PERF_IP_FLAG_` bits. -/
def ipFlag (bit : UInt32) : UInt32 := 1 <<< bit

def flagBranch := ipFlag 0
def flagCall := ipFlag 1
def flagReturn := ipFlag 2
def flagConditional := ipFlag 3
def flagSyscallret := ipFlag 4
def flagAsync := ipFlag 5
def flagInterrupt := ipFlag 6
def flagTxAbort := ipFlag 7
def flagTraceBegin := ipFlag 8
def flagTraceEnd := ipFlag 9
def flagInTx := ipFlag 10

/-- `intel_pt_insn_type`. -/
def insnType : Decode.Op → UInt32
  | .other => 0
  | .call => flagBranch ||| flagCall
  | .ret => flagBranch ||| flagReturn
  | .jcc | .loop => flagBranch ||| flagConditional
  | .jmp => flagBranch
  | .iret => flagBranch ||| flagReturn ||| flagInterrupt
  | .int => flagBranch ||| flagCall ||| flagInterrupt
  | .syscall => flagBranch ||| flagCall ||| flagSyscallret
  | .sysret => flagBranch ||| flagReturn ||| flagSyscallret

/-- `intel_pt_sample_flags`. -/
def Received.sampleFlags (r : Received) : Received :=
  if r.state.flags.abortTx then { r with flags := flagBranch ||| flagTxAbort }
  else if r.state.flags.async then
    { r with
      flags :=
        if r.state.toIp ≠ 0 then flagBranch ||| flagCall ||| flagAsync ||| flagInterrupt
        else flagBranch ||| flagTraceEnd
      insnLen := 0 }
  else
    let flags :=
      if r.state.fromIp ≠ 0 then insnType r.state.insnOp else flagBranch ||| flagTraceBegin
    { r with
      flags := if r.state.flags.inTx then flags ||| flagInTx else flags
      insnLen := .ofNat r.state.insnLen
      insn := r.state.insn }

/-- The `perf_synth_intel_` records, without their padding. -/
inductive Raw
  | ptwrite (flags : UInt32) (payload : UInt64)
  | cbr (flags freq : UInt32)
  | exstop (flags : UInt32)
  | payload (payload : UInt64)
  deriving DecidableEq, Repr

/-- `struct perf_sample`, with the function that has made it. -/
structure Sample where
  synth : Synth
  id : UInt64
  time : UInt64
  ip : UInt64
  addr : UInt64
  period : UInt64
  pid : Int
  tid : Int
  cpu : Int
  flags : UInt32
  insnLen : UInt16
  insn : List UInt8
  callchain : Option (ℕ × List UInt64) := none
  branchStack : Option (List BranchEntry) := none
  raw : Option Raw := none
  deriving DecidableEq, Repr

/-- `struct intel_pt_queue`. -/
structure PtQueue extends Received where
  haveSample : Bool := false
  lastInsnCnt : UInt64 := 0
  branches : BranchQueue

/-- What the samples change: the queues, `pt->num_events` and the threads. -/
structure Decoding where
  queues : ℕ → PtQueue
  threads : ℕ → Threads.Thread
  numEvents : UInt64 := 0
  deliveries : ℕ := 0

abbrev Op := Decoding → Option (Int × Decoding × List Sample)

/-- `g`, unless `f` has failed. -/
def Op.andThen (f g : Op) : Op := fun s =>
  (f s).bind fun r =>
    if r.1 ≠ 0 then some r else (g r.2.1).map fun r' => (r'.1, r'.2.1, r.2.2 ++ r'.2.2)

def Op.skip : Op := fun s => some (0, s, [])

def Decoding.setBranches (s : Decoding) (k : ℕ) (branches : BranchQueue) : Decoding :=
  { s with queues := update s.queues k { s.queues k with branches } }

namespace Options

variable (pt : Options) (k : ℕ)

/-- `intel_pt_skip_event`. -/
def skipEvent (s : Decoding) : Bool × Decoding :=
  if pt.initialSkip ≠ 0 then
    (decide (s.numEvents < pt.initialSkip), { s with numEvents := s.numEvents + 1 })
  else (false, s)

section

variable (synth : Synth)

/-- `intel_pt_prep_b_sample`. -/
def prepBSample (r : Received) : Sample where
  synth
  id := pt.id synth
  time := if pt.timelessDecoding then 0 else tscToPerfTime r.timestamp pt.tc
  ip := r.state.fromIp
  addr := r.state.toIp
  period := 1
  pid := r.pid
  tid := r.tid
  cpu := r.cpu
  flags := r.flags
  insnLen := r.insnLen
  insn := r.insn

/-- The call chain in `intel_pt_prep_sample`. -/
def chain (threads : ℕ → Threads.Thread) (r : Received) : Option (Option (ℕ × List UInt64)) :=
  if pt.callchain then
    (((r.thread.map threads).getD { ts := none }).sample pt.callchainSz r.state.fromIp).map some
  else some none

/-- `intel_pt_prep_sample`. -/
def prepSample (s : Decoding) : Option (Sample × Decoding) := do
  let r := (s.queues k).toReceived
  let callchain ← pt.chain s.threads r
  let sample := { pt.prepBSample synth r with callchain }
  if pt.lastBranch then
    let branches ← (s.queues k).branches.copyLastBranchRb pt.toBranchOptions
    let branchStack := branches.lastBranch.entries.take branches.lastBranch.nr
    some ({ sample with branchStack := some branchStack }, s.setBranches k branches)
  else some (sample, s)

/-- What `intel_pt_prep_p_sample` does to the flags. -/
def clearFlags (sample : Sample) : Sample :=
  if sample.ip = 0 then { sample with flags := 0 } else sample

/-- `intel_pt_deliver_synth_b_event`. -/
def deliverSynthBEvent (sample : Sample) : Op := fun s =>
  some (pt.deliver s.deliveries, { s with deliveries := s.deliveries + 1 }, [sample])

/-- `intel_pt_deliver_synth_event`. -/
def deliverSynthEvent (sample : Sample) : Op := fun s =>
  (pt.deliverSynthBEvent sample s).map fun r =>
    if pt.lastBranch then
      (r.1, r.2.1.setBranches k (r.2.1.queues k).branches.resetLastBranchRb, r.2.2)
    else r

def synthSample (fill : PtQueue → Sample → Sample) (count : PtQueue → UInt64) : Op := fun s =>
  let (skip, s) := pt.skipEvent s
  if skip then some (0, s, [])
  else
    (pt.prepSample k synth s).bind fun r =>
      let ptq := r.2.queues k
      pt.deliverSynthEvent k (fill ptq r.1)
        { r.2 with queues := update r.2.queues k { ptq with lastInsnCnt := count ptq } }

/-- `intel_pt_synth_instruction_sample`. -/
def synthInstructionSample : Op :=
  pt.synthSample k .instruction
    (fun ptq sample => { sample with period := ptq.state.totInsnCnt - ptq.lastInsnCnt })
    fun ptq => ptq.state.totInsnCnt

/-- `intel_pt_synth_transaction_sample`. -/
def synthTransactionSample : Op :=
  pt.synthSample k .transaction (fun _ sample => sample) (·.lastInsnCnt)

/-- The bit `ip` of raw data. -/
def ipBit (state : Decode.State) : UInt32 := if state.flags.fupIp then 1 else 0

def cbrFlags (state : Decode.State) : UInt32 :=
  state.cbrPayload.toUInt16.toUInt32 ||| pt.maxNonTurboRatio <<< 16

/-- The raw data of a sample. -/
def rawOf (state : Decode.State) : Synth → Option Raw
  | .cbr => some (.cbr (pt.cbrFlags state) ((pt.cbrFlags state &&& 0xff) * pt.cbr2khz))
  | .mwait => some (.payload state.mwaitPayload)
  | .pwre => some (.payload state.pwrePayload)
  | .exstop => some (.exstop (ipBit state))
  | .pwrx => some (.payload state.pwrxPayload)
  | .ptwrite => some (.ptwrite (ipBit state) state.ptwPayload)
  | .instruction | .transaction | .branch => none

/-- A sample of `intel_pt_prep_p_sample`, with raw data. -/
def synthRawSample : Op :=
  pt.synthSample k synth
    (fun ptq sample => { clearFlags sample with raw := pt.rawOf ptq.state synth }) (·.lastInsnCnt)

end

/-- `intel_pt_synth_ptwrite_sample`. -/
def synthPtwriteSample : Op := pt.synthRawSample k .ptwrite

/-- `intel_pt_synth_cbr_sample`. -/
def synthCbrSample : Op := pt.synthRawSample k .cbr

/-- `intel_pt_synth_mwait_sample`. -/
def synthMwaitSample : Op := pt.synthRawSample k .mwait

/-- `intel_pt_synth_pwre_sample`. -/
def synthPwreSample : Op := pt.synthRawSample k .pwre

/-- `intel_pt_synth_exstop_sample`. -/
def synthExstopSample : Op := pt.synthRawSample k .exstop

/-- `intel_pt_synth_pwrx_sample`. -/
def synthPwrxSample : Op := pt.synthRawSample k .pwrx

def dummyBranches (r : Received) : Option (List BranchEntry) :=
  if pt.lastBranch && pt.sortModeBranch then
    some [{ from_ := r.state.fromIp, to_ := r.state.toIp }]
  else none

def passes (r : Received) : Bool :=
  pt.branchesFilter == 0 || pt.branchesFilter &&& r.flags != 0

/-- `intel_pt_synth_branch_sample`. -/
def synthBranchSample : Op := fun s =>
  let r := (s.queues k).toReceived
  if pt.passes r then
    let (skip, s) := pt.skipEvent s
    if skip then some (0, s, [])
    else
      pt.deliverSynthBEvent { pt.prepBSample .branch r with branchStack := pt.dummyBranches r } s
  else some (0, s, [])

/-- The call that makes a sample. -/
def synthOf : Synth → Op
  | .cbr => pt.synthCbrSample k
  | .mwait => pt.synthMwaitSample k
  | .pwre => pt.synthPwreSample k
  | .exstop => pt.synthExstopSample k
  | .pwrx => pt.synthPwrxSample k
  | .instruction => pt.synthInstructionSample k
  | .transaction => pt.synthTransactionSample k
  | .ptwrite => pt.synthPtwriteSample k
  | .branch => pt.synthBranchSample k

def branchTaken (t : Threads.Thread) (r : Received) : Option Threads.Thread :=
  if t.Fits then
    if pt.callchain || pt.threadStack then
      (t.event pt.env
        { flags := r.flags, fromIp := r.state.fromIp, toIp := r.state.toIp, insnLen := r.insnLen,
          traceNr := r.state.traceNr }).map (·.2)
    else some (t.setTraceNr pt.env r.state.traceNr)
  else none

/-- `thread_stack__event` and `thread_stack__set_trace_nr`. -/
def takeBranch : Op := fun s =>
  let r := (s.queues k).toReceived
  match r.thread with
  | none => some (0, s, [])
  | some t =>
    (pt.branchTaken (s.threads t) r).map fun thread =>
      (0, { s with threads := update s.threads t thread }, [])

/-- The call of `intel_pt_update_last_branch_rb`. -/
def recordBranch : Op := fun s =>
  if pt.lastBranch then
    ((s.queues k).branches.updateLastBranchRb pt.toBranchOptions (s.queues k).state).map
      fun branches => (0, s.setBranches k branches, [])
  else some (0, s, [])

/-- `intel_pt_sample`, up to what it does about switches. -/
def sampleState (state : Decode.State) : Op :=
  ((pt.synths state).filter (· ≠ .branch)).foldr
    (fun synth rest => (pt.synthOf k synth).andThen rest)
    (if state.type.branch then
      (pt.takeBranch k).andThen <|
        (if pt.sampleBranches then pt.synthBranchSample k else .skip).andThen (pt.recordBranch k)
    else .skip)

/-- `intel_pt_sample`. -/
def sample : Op := fun s =>
  if (s.queues k).haveSample then
    pt.sampleState k (s.queues k).state
      { s with queues := update s.queues k { s.queues k with haveSample := false } }
  else some (0, s, [])

def receive (a : Arrival) (s : Decoding) : Decoding :=
  let ptq := s.queues a.queue
  { s with
    queues := update s.queues a.queue
      { ptq with
        toReceived := Received.sampleFlags { ptq.toReceived with toArrival := a }
        haveSample := true } }

/-- The queues return states in any order, and each is sampled. -/
def run : List Arrival → Decoding → Option (Decoding × List Sample)
  | [], s => some (s, [])
  | a :: l, s =>
    (pt.sample a.queue (receive a s)).bind fun r =>
      (run l r.2.1).map fun r' => (r'.1, r.2.2 ++ r'.2)

/-- Queues as `intel_pt_alloc_queue` makes them. -/
def start : Decoding where
  queues queue := { queue, branches := .alloc pt.toBranchOptions }
  threads := pt.threads

end Options

inductive Mark
  | wanted (synth : Synth) (r : Received)
  | taken (r : Received)
  | recorded (r : Received)

def Mark.isWanted : Mark → Bool
  | .wanted _ _ => true
  | _ => false

/-- How many samples were to be made. -/
def wantedCount (l : List Mark) : ℕ := l.countP Mark.isWanted

def skipping : ℕ → List Mark → List Mark
  | 0, l => l
  | _ + 1, [] => []
  | n + 1, .wanted _ _ :: l => skipping n l
  | n + 1, m :: l => m :: skipping (n + 1) l

def delivered (deliver : ℕ → Int) : ℕ → List Mark → List Mark
  | _, [] => []
  | n, .wanted synth r :: l =>
    .wanted synth r :: if deliver n = 0 then delivered deliver (n + 1) l else []
  | n, m :: l => m :: delivered deliver n l

namespace Options

variable (pt : Options)

/-- The marks of a state. -/
def marksOf (r : Received) : List Mark :=
  ((pt.synths r.state).filter (· ≠ .branch)).map (.wanted · r) ++
    if r.state.type.branch then
      [.taken r] ++ ((if pt.sampleBranches && pt.passes r then [.wanted .branch r] else []) ++
        [.recorded r])
    else []

/-- The marks of all states; `kept` is what each queue has received before. -/
def marks : (ℕ → Received) → List Arrival → List Mark
  | _, [] => []
  | kept, a :: l =>
    let r := Received.sampleFlags { kept a.queue with toArrival := a }
    pt.marksOf r ++ marks (update kept a.queue r) l

def storyFrom : (ℕ → Received) → (skip handedOn : ℕ) → List Arrival → List Mark
  | _, _, _, [] => []
  | kept, skip, handedOn, a :: l =>
    let r := Received.sampleFlags { kept a.queue with toArrival := a }
    let now := delivered pt.deliver handedOn (skipping skip (pt.marksOf r))
    now ++ storyFrom (update kept a.queue r) (skip - wantedCount (pt.marksOf r))
      (handedOn + wantedCount now) l

def story (l : List Arrival) : List Mark :=
  pt.storyFrom (fun queue => { queue }) pt.initialSkip.toNat 0 l

def window (q : ℕ) : List Mark → List BranchEntry
  | [] => []
  | .wanted synth r :: past => if r.queue = q ∧ synth ≠ .branch then [] else window q past
  | .taken _ :: past => window q past
  | .recorded r :: past =>
    if r.queue = q then BranchOp.branchOf pt.toBranchOptions r.state :: window q past
    else window q past

def lastCount (q : ℕ) : List Mark → UInt64
  | [] => 0
  | .wanted synth r :: past =>
    if r.queue = q ∧ synth = .instruction then r.state.totInsnCnt else lastCount q past
  | _ :: past => lastCount q past

def threadAfter (t : ℕ) : List Mark → Threads.Thread
  | [] => pt.threads t
  | .taken r :: past =>
    if r.thread = some t then (pt.branchTaken (threadAfter t past) r).getD (threadAfter t past)
    else threadAfter t past
  | _ :: past => threadAfter t past

def chainAfter (past : List Mark) (r : Received) : ℕ × List UInt64 :=
  let stack := (r.thread.map fun t => (pt.threadAfter t past).stack).getD []
  (min pt.callchainSz (stack.length + 1),
    r.state.fromIp :: (stack.map (·.retAddr)).take (pt.callchainSz - 1))

def common (past : List Mark) (synth : Synth) (r : Received) : Sample :=
  { pt.prepBSample synth r with
    callchain := if pt.callchain then some (pt.chainAfter past r) else none
    branchStack :=
      if pt.lastBranch then some ((pt.window r.queue past).take pt.lastBranchSz) else none }

def describe (past : List Mark) (r : Received) : Synth → Sample
  | .branch => { pt.prepBSample .branch r with branchStack := pt.dummyBranches r }
  | .instruction =>
    { pt.common past .instruction r with period := r.state.totInsnCnt - lastCount r.queue past }
  | .transaction => pt.common past .transaction r
  | synth => { clearFlags (pt.common past synth r) with raw := pt.rawOf r.state synth }

/-- The samples of some marks, after others. -/
def expected : List Mark → List Mark → List Sample
  | _, [] => []
  | past, .wanted synth r :: l => pt.describe past r synth :: expected (.wanted synth r :: past) l
  | past, m :: l => expected (m :: past) l

end Options

@[simp] theorem skipping_nil (n : ℕ) : skipping n [] = [] := by cases n <;> rfl

@[simp] theorem wantedCount_cons (m : Mark) (l : List Mark) :
    wantedCount (m :: l) = wantedCount l + if m.isWanted then 1 else 0 := List.countP_cons

theorem skipping_append (n : ℕ) (l l' : List Mark) :
    skipping n (l ++ l') = skipping n l ++ skipping (n - wantedCount l) l' := by
  induction l generalizing n with
  | nil => simp [wantedCount]
  | cons m l ih =>
    cases n with
    | zero => simp [skipping]
    | succ n => cases m <;> simp [skipping, ih, Mark.isWanted]

@[simp] theorem wantedCount_append (l l' : List Mark) :
    wantedCount (l ++ l') = wantedCount l + wantedCount l' := List.countP_append

theorem wantedCount_skipping (n : ℕ) (l : List Mark) :
    wantedCount (skipping n l) = wantedCount l - n := by
  induction l generalizing n with
  | nil => simp [wantedCount]
  | cons mark l ih =>
    cases n with
    | zero => rfl
    | succ n => cases mark <;> simp [skipping, ih, Mark.isWanted]

def fails (deliver : ℕ → Int) : ℕ → List Mark → Prop
  | _, [] => False
  | n, .wanted _ _ :: l => deliver n ≠ 0 ∨ fails deliver (n + 1) l
  | n, _ :: l => fails deliver n l

variable {deliver : ℕ → Int} {n : ℕ} {l : List Mark}

theorem wantedCount_pos_of_fails (h : fails deliver n l) : 0 < wantedCount l := by
  induction l generalizing n with
  | nil => exact h.elim
  | cons mark l ih =>
    cases mark with
    | wanted synth r => simp [Mark.isWanted]
    | taken r => simpa [Mark.isWanted] using ih h
    | recorded r => simpa [Mark.isWanted] using ih h

theorem delivered_append_of_fails (h : fails deliver n l) (l' : List Mark) :
    delivered deliver n (l ++ l') = delivered deliver n l := by
  induction l generalizing n with
  | nil => exact h.elim
  | cons mark l ih =>
    cases mark with
    | wanted synth r =>
      rcases h with h | h
      · simp [delivered, h]
      · simp [delivered, ih h]
    | taken r => simp [delivered, ih h]
    | recorded r => simp [delivered, ih h]

theorem delivered_append (h : ¬ fails deliver n l) (l' : List Mark) :
    delivered deliver n (l ++ l') = l ++ delivered deliver (n + wantedCount l) l' := by
  induction l generalizing n with
  | nil => simp [wantedCount]
  | cons mark l ih =>
    cases mark with
    | wanted synth r =>
      obtain ⟨h0, hrest⟩ := not_or.mp h
      rw [not_not] at h0
      simp [delivered, ih hrest, Mark.isWanted, h0, Nat.add_assoc, Nat.add_comm 1]
    | taken r => simp [delivered, ih h, Mark.isWanted]
    | recorded r => simp [delivered, ih h, Mark.isWanted]

theorem delivered_eq (h : ¬ fails deliver n l) : delivered deliver n l = l := by
  simpa [delivered] using delivered_append h []

theorem fails_append (l l' : List Mark) :
    fails deliver n (l ++ l') ↔
      fails deliver n l ∨ fails deliver (n + wantedCount l) l' := by
  induction l generalizing n with
  | nil => simp [fails, wantedCount]
  | cons mark l ih =>
    cases mark <;> simp [fails, ih, Mark.isWanted, or_assoc, Nat.add_assoc, Nat.add_comm 1]

namespace Options

variable {pt : Options} {kept : ℕ → Received} {past : List Mark} {n m k : ℕ} {s : Decoding}

theorem expected_append (past l l' : List Mark) :
    pt.expected past (l ++ l') = pt.expected past l ++ pt.expected (l.reverse ++ past) l' := by
  induction l generalizing past with
  | nil => rfl
  | cons m l ih => cases m <;> simp [expected, ih]

/-- A queue has what its marks tell. -/
structure QueueStands (pt : Options) (r : Received) (past : List Mark) (q : ℕ) (ptq : PtQueue) :
    Prop where
  received : ptq.toReceived = r
  count : ptq.lastInsnCnt = lastCount q past
  branches : pt.lastBranch = true → Holds pt.toBranchOptions (pt.window q past) ptq.branches

structure Stands (pt : Options) (kept : ℕ → Received) (past : List Mark) (n m : ℕ)
    (s : Decoding) : Prop where
  queues : ∀ q, pt.QueueStands (kept q) past q (s.queues q)
  threads : ∀ t, s.threads t = pt.threadAfter t past
  fits : ∀ t, (s.threads t).Fits
  left : n = pt.initialSkip.toNat - s.numEvents.toNat
  room : s.numEvents.toNat + m < 2 ^ 64

def Does (pt : Options) (kept : ℕ → Received) (f : Op) (l : List Mark) : Prop :=
  ∀ past n m s, pt.Stands kept past n (wantedCount l + m) s →
    ∃ err s', f s = some (err, s',
        pt.expected past (delivered pt.deliver s.deliveries (skipping n l))) ∧
      pt.Stands kept ((delivered pt.deliver s.deliveries (skipping n l)).reverse ++ past)
        (n - wantedCount l) m s' ∧
      s'.deliveries = s.deliveries +
        wantedCount (delivered pt.deliver s.deliveries (skipping n l)) ∧
      (err = 0 ↔ ¬ fails pt.deliver s.deliveries (skipping n l))

variable {f : Op} {synth : Synth}

theorem Does.andThen {g : Op} {l l' : List Mark} (hf : pt.Does kept f l) (hg : pt.Does kept g l') :
    pt.Does kept (f.andThen g) (l ++ l') := by
  intro past n m s h
  rw [wantedCount_append, Nat.add_assoc] at h
  obtain ⟨err, s₁, hrun, h₁, hcount, herr⟩ := hf past n _ s h
  rw [skipping_append, wantedCount_append, fails_append]
  by_cases hfails : fails pt.deliver s.deliveries (skipping n l)
  · have hne : err ≠ 0 := fun h0 => herr.mp h0 hfails
    have hnone : n - wantedCount l = 0 := by
      have hpos := wantedCount_pos_of_fails hfails
      rw [wantedCount_skipping] at hpos
      omega
    rw [delivered_append_of_fails hfails]
    refine ⟨err, s₁, by simp [Op.andThen, hrun, hne], ?_, hcount, ?_⟩
    · refine { h₁ with left := ?_, room := ?_ }
      · rw [← h₁.left]
        omega
      · have := h₁.room
        omega
    · exact iff_of_false hne (not_not.mpr (.inl hfails))
  · rw [delivered_eq hfails] at hrun h₁ hcount
    obtain ⟨err', s₂, hrun', h₂, hcount', herr'⟩ := hg _ _ m s₁ h₁
    rw [hcount] at hrun' h₂ hcount' herr'
    rw [delivered_append hfails, expected_append, List.reverse_append, List.append_assoc,
      ← Nat.sub_sub]
    refine ⟨err', s₂, by simp [Op.andThen, hrun, herr.mpr hfails, hrun'], h₂, ?_, ?_⟩
    · rw [hcount', wantedCount_append, Nat.add_assoc]
    · rw [herr', or_iff_right hfails]

theorem does_nothing (k : ℕ) (hf : ∀ s, (s.queues k).toReceived = kept k → f s = some (0, s, [])) :
    pt.Does kept f [] := by
  intro past n m s h
  rw [wantedCount, List.countP_nil, Nat.zero_add] at h
  rw [skipping_nil]
  exact ⟨0, s, hf s (h.queues k).received, h, rfl, iff_of_true rfl not_false⟩

theorem does_of_unwanted {mark : Mark} (hmark : mark.isWanted = false)
    (hf : ∀ past n m s, pt.Stands kept past n m s →
      ∃ s', f s = some (0, s', []) ∧ pt.Stands kept (mark :: past) n m s' ∧
        s'.deliveries = s.deliveries) : pt.Does kept f [mark] := by
  intro past n m s h
  have hcount : wantedCount [mark] = 0 := by simp [wantedCount, hmark]
  have hskip : skipping n [mark] = [mark] := by
    cases n <;> cases mark <;> first | rfl | cases hmark
  have hnone : pt.expected past [mark] = [] := by
    cases mark <;> first | rfl | cases hmark
  have hfails : ¬ fails pt.deliver s.deliveries [mark] := by
    cases mark <;> first | exact not_false | cases hmark
  rw [hcount, Nat.zero_add] at h
  obtain ⟨s', hrun, h', hsame⟩ := hf past n m s h
  rw [hskip, delivered_eq hfails, hcount, hnone]
  exact ⟨0, s', hrun, h', hsame, iff_of_true rfl hfails⟩

theorem Stands.skipEvent (h : pt.Stands kept past n (1 + m) s) :
    ∃ s', pt.skipEvent s = (decide (n ≠ 0), s') ∧ pt.Stands kept past (n - 1) m s' ∧
      s'.deliveries = s.deliveries := by
  have hroom := h.room
  by_cases hinit : pt.initialSkip = 0
  · have hn : n = 0 := by rw [h.left, hinit]; exact Nat.zero_sub _
    subst hn
    exact ⟨s, by simp [Options.skipEvent, hinit], { h with room := by omega }, rfl⟩
  · have hsucc : (s.numEvents + 1).toNat = s.numEvents.toNat + 1 := by
      rw [UInt64.toNat_add]
      exact Nat.mod_eq_of_lt (by simpa using by omega)
    refine ⟨{ s with numEvents := s.numEvents + 1 }, ?_, ⟨h.queues, h.threads, h.fits, ?_, ?_⟩,
      rfl⟩
    · rw [Options.skipEvent, if_pos hinit, Prod.mk.injEq]
      refine ⟨?_, rfl⟩
      rw [decide_eq_decide, UInt64.lt_iff_toNat_lt, h.left]
      omega
    · rw [h.left]
      simp only [hsucc]
      omega
    · simp only [hsucc]
      omega

theorem does_wanted (k : ℕ) {r : Received}
    (hskip : ∀ s s', (s.queues k).toReceived = kept k → pt.skipEvent s = (true, s') →
      f s = some (0, s', []))
    (hmake : ∀ past m s s₁, (s.queues k).toReceived = kept k → pt.skipEvent s = (false, s₁) →
      pt.Stands kept past 0 m s₁ → ∃ s',
        f s = some (pt.deliver s₁.deliveries, s', [pt.describe past r synth]) ∧
        pt.Stands kept (.wanted synth r :: past) 0 m s' ∧
        s'.deliveries = s₁.deliveries + 1) : pt.Does kept f [.wanted synth r] := by
  intro past n m s h
  obtain ⟨s₁, hs₁, h₁, hsame⟩ := h.skipEvent
  cases n with
  | zero =>
    obtain ⟨s', hrun, h', hnext⟩ := hmake past m s s₁ (h.queues k).received hs₁ h₁
    have hnow : delivered pt.deliver s.deliveries [.wanted synth r] = [.wanted synth r] := by
      simp [delivered]
    rw [skipping, hnow]
    refine ⟨_, s', hrun, h', hsame ▸ hnext, ?_⟩
    simp [fails, hsame]
  | succ n =>
    rw [skipping, skipping_nil]
    exact ⟨0, s₁, hskip s s₁ (h.queues k).received hs₁, h₁, hsame, iff_of_true rfl not_false⟩

theorem Stands.setQueue (h : pt.Stands kept past n m s) {past' : List Mark} {ptq : PtQueue}
    (hq : pt.QueueStands (kept k) past' k ptq)
    (hother : ∀ q ≠ k, pt.window q past' = pt.window q past ∧ lastCount q past' = lastCount q past)
    (hthreads : ∀ t, pt.threadAfter t past' = pt.threadAfter t past) (deliveries : ℕ) :
    pt.Stands kept past' n m { s with queues := update s.queues k ptq, deliveries } where
  queues := by
    apply (Function.forall_update_iff s.queues fun q ptq => pt.QueueStands (kept q) past' q ptq).mpr
    refine ⟨hq, ?_⟩
    intro q hne
    obtain ⟨hreceived, hcount, hbranches⟩ := h.queues q
    exact ⟨hreceived, (hother q hne).2 ▸ hcount, (hother q hne).1 ▸ hbranches⟩
  threads t := (h.threads t).trans (hthreads t).symm
  fits := h.fits
  left := h.left
  room := h.room

theorem Stands.chain (h : pt.Stands kept past n m s)
    (hchain : pt.callchain = true → 1 ≤ pt.callchainSz) (r : Received) :
    pt.chain s.threads r = some (if pt.callchain then some (pt.chainAfter past r) else none) := by
  rw [Options.chain]
  split_ifs with hon
  · rw [Threads.Thread.sample_eq _ (hchain hon), Option.map_some, chainAfter]
    cases r.thread with
    | none => rfl
    | some t => simp [h.threads]
  · rfl

theorem Stands.prepSample (h : pt.Stands kept past n m s)
    (hchain : pt.callchain = true → 1 ≤ pt.callchainSz) (hk : (kept k).queue = k) (synth : Synth) :
    ∃ s', pt.prepSample k synth s = some (pt.common past synth (kept k), s') ∧
      pt.Stands kept past n m s' ∧ s'.deliveries = s.deliveries := by
  obtain ⟨hreceived, hcount, hbranches⟩ := h.queues k
  cases hlast : pt.lastBranch with
  | false =>
    refine ⟨s, ?_, h, rfl⟩
    simp [Options.prepSample, h.chain hchain, common, prepBSample, hlast, hreceived]
  | true =>
    obtain ⟨branches, hcopy, hholds, -, htake⟩ := (hbranches hlast).copy
    have hq : pt.QueueStands (kept k) past k { s.queues k with branches } :=
      ⟨hreceived, hcount, fun _ => hholds⟩
    refine ⟨_, ?_, h.setQueue hq (fun _ _ => ⟨rfl, rfl⟩) (fun _ => rfl) s.deliveries, rfl⟩
    simp [Options.prepSample, h.chain hchain, common, hlast, hreceived, hcopy, htake, hk,
      Decoding.setBranches]

theorem synthSample_does (hchain : pt.callchain = true → 1 ≤ pt.callchainSz)
    (hk : (kept k).queue = k) (hsynth : synth ≠ .branch) {fill : PtQueue → Sample → Sample}
    {count : PtQueue → UInt64} (hfill : ∀ past ptq, pt.QueueStands (kept k) past k ptq →
      fill ptq (pt.common past synth (kept k)) = pt.describe past (kept k) synth)
    (hcount : ∀ past ptq, pt.QueueStands (kept k) past k ptq →
      count ptq = lastCount k (.wanted synth (kept k) :: past)) :
    pt.Does kept (pt.synthSample k synth fill count) [.wanted synth (kept k)] := by
  apply does_wanted k
  · intro s s' _ hskip
    simp [synthSample, hskip]
  intro past m s s₁ _ hskip h₁
  obtain ⟨s₂, hprep, h₂, hsame⟩ := h₁.prepSample hchain hk synth
  have hq := h₂.queues k
  have hnext : pt.QueueStands (kept k) (.wanted synth (kept k) :: past) k
      { s₂.queues k with
        lastInsnCnt := count (s₂.queues k)
        branches :=
          if pt.lastBranch then (s₂.queues k).branches.resetLastBranchRb
          else (s₂.queues k).branches } := by
    refine ⟨hq.received, hcount past _ hq, ?_⟩
    intro hlast
    obtain ⟨_, hreset, hholds⟩ := (hq.branches hlast).step .reset
    cases hreset
    simpa [window, hk, hsynth, hlast, BranchOp.record] using hholds
  have hother : ∀ q ≠ k, pt.window q (.wanted synth (kept k) :: past) = pt.window q past ∧
      lastCount q (.wanted synth (kept k) :: past) = lastCount q past := by
    intro q hne
    simp [window, lastCount, hk, hne.symm]
  refine ⟨_, ?_, h₂.setQueue hnext hother (fun _ => rfl) (s₂.deliveries + 1), by rw [hsame]⟩
  rw [← hsame]
  cases hlast : pt.lastBranch <;>
    simp [synthSample, hskip, hprep, hfill past _ hq, deliverSynthEvent, deliverSynthBEvent, hlast,
      Decoding.setBranches]

theorem synthOf_does (hchain : pt.callchain = true → 1 ≤ pt.callchainSz) (hk : (kept k).queue = k)
    (hsynth : synth ≠ .branch) : pt.Does kept (pt.synthOf k synth) [.wanted synth (kept k)] := by
  cases synth with
  | branch => exact absurd rfl hsynth
  | instruction =>
    rw [synthOf, synthInstructionSample]
    apply synthSample_does hchain hk hsynth
    · rintro past ptq ⟨hreceived, hcount, -⟩
      simp [describe, hreceived, hcount, hk]
    · rintro past ptq ⟨hreceived, -, -⟩
      simp [lastCount, hk, hreceived]
  | _ =>
    simp only [synthOf, synthTransactionSample, synthCbrSample, synthMwaitSample, synthPwreSample,
      synthExstopSample, synthPwrxSample, synthPtwriteSample, synthRawSample]
    apply synthSample_does hchain hk hsynth
    · rintro past ptq ⟨hreceived, -, -⟩
      simp [describe, hreceived]
    · rintro past ptq ⟨-, hcount, -⟩
      simp [lastCount, hcount]

theorem synthBranchSample_does (kept : ℕ → Received) (k : ℕ) :
    pt.Does kept (pt.synthBranchSample k)
      (if pt.passes (kept k) then [.wanted .branch (kept k)] else []) := by
  split_ifs with hpass
  · apply does_wanted k
    · intro s s' hreceived hskip
      simp [synthBranchSample, hreceived, hpass, hskip]
    · intro past m s s₁ hreceived hskip h₁
      have hmade : pt.Stands kept (.wanted .branch (kept k) :: past) 0 m
          { s₁ with deliveries := s₁.deliveries + 1 } := by
        refine ⟨fun q => ?_, h₁.threads, h₁.fits, h₁.left, h₁.room⟩
        obtain ⟨hreceived', hcount, hbranches⟩ := h₁.queues q
        exact ⟨hreceived', by simpa [lastCount] using hcount, by simpa [window] using hbranches⟩
      refine ⟨_, ?_, hmade, rfl⟩
      simp [synthBranchSample, hreceived, hpass, hskip, deliverSynthBEvent, describe]
  · apply does_nothing k
    intro s hreceived
    simp [synthBranchSample, hreceived, hpass]

theorem branchTaken_fits (pt : Options) {t : Threads.Thread} (h : t.Fits) (r : Received) :
    ∃ t', pt.branchTaken t r = some t' ∧ t'.Fits := by
  rw [branchTaken, if_pos h]
  split_ifs
  · obtain ⟨out, hout, hfits⟩ := Threads.Thread.event_fits pt.env h _
    exact ⟨out.2, by rw [hout]; rfl, hfits⟩
  · exact ⟨_, rfl, Threads.Thread.setTraceNr_fits pt.env h _⟩

theorem takeBranch_does (kept : ℕ → Received) (k : ℕ) :
    pt.Does kept (pt.takeBranch k) [.taken (kept k)] := by
  apply does_of_unwanted rfl
  intro past n m s h
  have hreceived := (h.queues k).received
  cases hthread : (kept k).thread with
  | none =>
    refine ⟨s, by simp [takeBranch, hreceived, hthread], ⟨fun q => { h.queues q with },
      fun t => ?_, h.fits, h.left, h.room⟩, rfl⟩
    simp [threadAfter, hthread, h.threads]
  | some t =>
    obtain ⟨thread, htaken, hfits⟩ := branchTaken_fits pt (h.fits t) (kept k)
    refine ⟨{ s with threads := update s.threads t thread },
      by simp [takeBranch, hreceived, hthread, htaken], ⟨fun q => { h.queues q with },
      fun t' => ?_, ?_, h.left, h.room⟩, rfl⟩
    · rw [h.threads] at htaken
      by_cases ht : t = t'
      · subst ht
        simp [threadAfter, hthread, htaken]
      · simp [threadAfter, hthread, h.threads, ht, update_of_ne (Ne.symm ht)]
    · exact (Function.forall_update_iff s.threads fun _ thread => thread.Fits).mpr
        ⟨hfits, fun t' _ => h.fits t'⟩

theorem recordBranch_does (hk : (kept k).queue = k) :
    pt.Does kept (pt.recordBranch k) [.recorded (kept k)] := by
  apply does_of_unwanted rfl
  intro past n m s h
  obtain ⟨hreceived, hcount, hbranches⟩ := h.queues k
  have hother : ∀ q ≠ k, pt.window q (.recorded (kept k) :: past) = pt.window q past ∧
      lastCount q (.recorded (kept k) :: past) = lastCount q past := by
    intro q hne
    simp [window, lastCount, hk, hne.symm]
  cases hlast : pt.lastBranch with
  | false =>
    have hq : pt.QueueStands (kept k) (.recorded (kept k) :: past) k (s.queues k) :=
      ⟨hreceived, hcount, fun hon => absurd (hlast.symm.trans hon) Bool.false_ne_true⟩
    refine ⟨s, by simp [recordBranch, hlast], ?_, rfl⟩
    simpa using h.setQueue hq hother (fun _ => rfl) s.deliveries
  | true =>
    obtain ⟨branches, hupdate, hholds⟩ := (hbranches hlast).step (.update (kept k).state)
    have hq : pt.QueueStands (kept k) (.recorded (kept k) :: past) k
        { s.queues k with branches } := by
      refine ⟨hreceived, hcount, fun _ => ?_⟩
      simpa [window, hk, BranchOp.record] using hholds
    refine ⟨s.setBranches k branches, ?_, h.setQueue hq hother (fun _ => rfl) _, rfl⟩
    rw [BranchOp.run, ← hreceived] at hupdate
    simp [recordBranch, hlast, hupdate]

theorem does_foldr {f : Synth → Op} {g : Op} {r : Received} {l' : List Mark} {l : List Synth}
    (hf : ∀ synth ∈ l, pt.Does kept (f synth) [.wanted synth r]) (hg : pt.Does kept g l') :
    pt.Does kept (l.foldr (fun synth rest => (f synth).andThen rest) g)
      (l.map (.wanted · r) ++ l') := by
  induction l with
  | nil => exact hg
  | cons synth l ih =>
    rw [List.forall_mem_cons] at hf
    exact hf.1.andThen (ih hf.2)

theorem sampleState_does (hchain : pt.callchain = true → 1 ≤ pt.callchainSz)
    (hk : (kept k).queue = k) :
    pt.Does kept (pt.sampleState k (kept k).state) (pt.marksOf (kept k)) := by
  apply does_foldr
  · intro synth hmem
    exact synthOf_does hchain hk (by simpa using (List.mem_filter.mp hmem).2)
  · cases (kept k).state.type.branch with
    | false => exact does_nothing k fun _ _ => rfl
    | true =>
      refine (takeBranch_does kept k).andThen (Does.andThen ?_ (recordBranch_does hk))
      cases pt.sampleBranches with
      | false => exact does_nothing k fun _ _ => rfl
      | true => exact synthBranchSample_does kept k

theorem sampleFlags_queue (r : Received) : r.sampleFlags.queue = r.queue := by
  unfold Received.sampleFlags
  split_ifs <;> rfl

/-- A whole run does what its marks ask for. -/
theorem run_expected (hchain : pt.callchain = true → 1 ≤ pt.callchainSz) (l : List Arrival)
    (kept : ℕ → Received) (past : List Mark) (n : ℕ) (s : Decoding)
    (h : pt.Stands kept past n (wantedCount (pt.marks kept l)) s) :
    ∃ s', pt.run l s = some (s', pt.expected past (pt.storyFrom kept n s.deliveries l)) ∧
      ∀ t, (s'.threads t).Fits := by
  induction l generalizing kept past n s with
  | nil => exact ⟨s, rfl, h.fits⟩
  | cons a l ih =>
    rw [marks, wantedCount_append] at h
    have hold := h.queues a.queue
    set r := Received.sampleFlags { kept a.queue with toArrival := a } with hr
    set s₁ : Decoding :=
      { s with
        queues := update s.queues a.queue
          { s.queues a.queue with toReceived := r, haveSample := false } } with hs₁
    have hrun : pt.sample a.queue (receive a s) = pt.sampleState a.queue r.state s₁ := by
      simp [sample, receive, hold.received, ← hr, s₁]
    have h₁ : pt.Stands (update kept a.queue r) past n
        (wantedCount (pt.marksOf r) + wantedCount (pt.marks (update kept a.queue r) l)) s₁ := by
      refine ⟨fun q => ?_, h.threads, h.fits, h.left, h.room⟩
      by_cases hq : q = a.queue
      · subst hq
        simpa [s₁] using ⟨rfl, hold.count, hold.branches⟩
      · simpa [s₁, update_of_ne hq] using h.queues q
    have hk : (update kept a.queue r a.queue).queue = a.queue := by
      rw [update_self, hr, sampleFlags_queue]
    have hdoes : pt.Does (update kept a.queue r) (pt.sampleState a.queue r.state)
        (pt.marksOf r) := by
      simpa only [update_self] using sampleState_does hchain hk
    obtain ⟨err, s₂, hout, h₂, hcount, -⟩ := hdoes past n _ s₁ h₁
    obtain ⟨s', hrest, hfits⟩ := ih _ _ _ s₂ h₂
    refine ⟨s', ?_, hfits⟩
    rw [run, hrun, hout, Option.bind_some, hrest, hcount, storyFrom, expected_append]
    rfl

/-- Nothing goes outside an array, and what is handed on are the samples the marks ask for. If
handing on one fails, only what is left of its own state is dropped. -/
theorem samples_tell_what_happened (pt : Options) (hsz : pt.lastBranch = true → 1 ≤ pt.lastBranchSz)
    (hchain : pt.callchain = true → 1 ≤ pt.callchainSz) (hthreads : ∀ t, (pt.threads t).Fits)
    (l : List Arrival) (hfew : wantedCount (pt.marks (fun queue => { queue }) l) < 2 ^ 64) :
    ∃ s, pt.run l pt.start = some (s, pt.expected [] (pt.story l)) ∧
      ∀ t, (s.threads t).Fits := by
  have hstart : pt.Stands (fun queue => { queue }) [] pt.initialSkip.toNat
      (wantedCount (pt.marks (fun queue => { queue }) l)) pt.start :=
    ⟨fun _ => ⟨rfl, rfl, fun hlast => Holds.alloc (hsz hlast)⟩, fun _ => rfl, hthreads, rfl,
      by simpa [start] using hfew⟩
  exact run_expected hchain l _ [] _ _ hstart

end Options

def twoQueues : List Arrival :=
  let call (ip : UInt64) : Decode.State :=
    { type := { branch := true }, fromIp := ip, toIp := 32, insnOp := .call, insnLen := 5 }
  let insn (n : UInt64) : Decode.State :=
    { type := { instruction := true }, fromIp := 40, totInsnCnt := n }
  [(0, call 16), (1, call 64), (0, insn 3), (1, insn 7), (0, insn 9)].map fun (queue, state) =>
    { queue, state, thread := some queue }

def twoOptions : Options where
  env := { malloc := fun _ => true, process := fun _ => 0 }
  deliver n := if n = 0 then -1 else 0
  sampleBranches := false
  sampleInstructions := true
  callchain := true
  callchainSz := 4
  lastBranch := true
  lastBranchSz := 2
  initialSkip := 1

theorem two_queues_sampled :
    ∃ s out, twoOptions.run twoQueues twoOptions.start = some (s, out) ∧
      out.map (fun x => (x.period, x.callchain, x.branchStack)) =
        [(7, some (2, [40, 69]), some [{ from_ := 64, to_ := 32 }]),
          (9, some (2, [40, 21]), some [{ from_ := 16, to_ := 32 }])] := by
  obtain ⟨s, hrun, -⟩ := Options.samples_tell_what_happened twoOptions
    (fun _ => by decide) (fun _ => by decide) (fun _ ts hts => by cases hts) twoQueues
    (by decide +kernel)
  exact ⟨s, _, hrun, rfl⟩

end RPerf.Queues.Synthesis
