import RPerf.Lib.Lifo

/-!
# The stack of a thread

`thread-stack.c`: the stack of a thread is made up again from the branches it has taken.
`thread_stack__event` keeps return addresses only, for call chains.
-/

namespace RPerf.Threads

open Lib

/-- `struct call_path`, with its own address. -/
structure CallPath where
  addr : ℕ
  parent : Option ℕ
  sym : Option ℕ
  ip : UInt64
  inKernel : Bool
  deriving DecidableEq, Repr

structure CallPathRoot where
  nodes : List CallPath := []
  sz : ℕ := 0

/-- `cpr->call_path`. -/
def CallPathRoot.callPath : CallPath :=
  { addr := 0, parent := none, sym := none, ip := 0, inKernel := false }

/-- `CALL_PATH_BLOCK_SIZE`. -/
def callPathBlockSize : ℕ := 256

/-- `call_path__new`; `none` without memory. -/
def CallPathRoot.new (cpr : CallPathRoot) (parent : CallPath) (sym : Option ℕ) (ip : UInt64)
    (inKernel zalloc : Bool) : Option (CallPath × CallPathRoot) :=
  let cp : CallPath :=
    { addr := cpr.nodes.length + 1, parent := some parent.addr, sym,
      ip := if sym.isSome then 0 else ip, inKernel }
  if cpr.nodes.length < cpr.sz then some (cp, { cpr with nodes := cpr.nodes ++ [cp] })
  else if zalloc then some (cp, { nodes := cpr.nodes ++ [cp], sz := cpr.sz + callPathBlockSize })
  else none

/-- `call_path__findnew`. -/
def CallPathRoot.findnew (cpr : CallPathRoot) (parent : CallPath) (sym : Option ℕ) (ip ks : UInt64)
    (zalloc : Bool) : Option (CallPath × CallPathRoot) :=
  let inKernel := decide (ks ≤ ip)
  let ip := if sym.isSome then 0 else ip
  match cpr.nodes.find? fun cp => cp.parent = some parent.addr ∧ cp.sym = sym ∧ cp.ip = ip with
  | some cp => some (cp, cpr)
  | none => cpr.new parent sym ip inKernel zalloc

/-- `struct thread_stack_entry`. -/
structure Entry where
  retAddr : UInt64
  timestamp : UInt64 := 0
  ref : UInt64 := 0
  branchCount : UInt64 := 0
  cp : CallPath := CallPathRoot.callPath
  noCall : Bool := false
  deriving DecidableEq, Repr

/-- `struct thread_stack`. -/
structure ThreadStack where
  stack : List Entry := []
  sz : ℕ := 0
  traceNr : UInt64 := 0
  branchCount : UInt64 := 0
  kernelStart : UInt64
  lastTime : UInt64 := 0
  crp : Option ℕ
  comm : Option ℕ := none

/-- `struct call_return`, with its two flags. -/
structure CallReturn where
  comm : Option ℕ
  cp : CallPath
  callTime : UInt64
  returnTime : UInt64
  branchCount : UInt64
  callRef : UInt64
  returnRef : UInt64
  noCall : Bool
  noReturn : Bool
  deriving DecidableEq, Repr

abbrev Log := List (LifoEvent Entry (ℕ × CallReturn))

structure Env where
  kernelStart : Option UInt64 := none
  leader : Bool := true
  malloc : ℕ → Bool
  process : Log → Int

structure Shared where
  cprs : ℕ → CallPathRoot := fun _ => {}
  allocs : ℕ := 0
  log : Log := []

/-- `struct thread`. -/
structure Thread extends Shared where
  ts : Option ThreadStack := none

/-- A thread that has a stack. -/
structure State extends Shared where
  ts : ThreadStack

def State.thread (s : State) : Thread := { s.toShared with ts := some s.ts }

/-- `-ENOMEM`. -/
def enomem : Int := -12

/-- `STACK_GROWTH`. -/
def stackGrowth : ℕ := 2048

/-- `thread_stack__new`, with two allocations. -/
def new (env : Env) (t : Thread) (crp : Option ℕ) : Option State :=
  if env.malloc t.allocs ∧ env.malloc (t.allocs + 1) then
    some { t.toShared with
      allocs := t.allocs + 2
      ts := { sz := stackGrowth, kernelStart := env.kernelStart.getD 0x8000000000000000, crp } }
  else none

namespace State

variable (env : Env)

section

variable (s : State)

def grow : Int × State :=
  if s.ts.stack.length = s.ts.sz then
    if env.malloc s.allocs then
      (0, { s with allocs := s.allocs + 1, ts.sz := s.ts.sz + stackGrowth })
    else (enomem, { s with allocs := s.allocs + 1 })
  else (0, s)

def store (e : Entry) : Option State :=
  if s.ts.stack.length < s.ts.sz then some { s with ts.stack := e :: s.ts.stack } else none

/-- `thread_stack__push`: without memory the stack is discarded. -/
def push (retAddr : UInt64) : Option (Int × State) :=
  match s.grow env with
  | (0, s) => (s.store { retAddr }).map fun s => (0, s)
  | (err, s) => (store { s with ts.stack := [] } { retAddr }).map fun s => (err, s)

def below (retAddr : UInt64) : List Entry → Option (List Entry)
  | [] => none
  | e :: stack => if e.retAddr = retAddr then some stack else below retAddr stack

/-- `thread_stack__pop`. -/
def pop (retAddr : UInt64) : State :=
  match below retAddr s.ts.stack with
  | some stack => { s with ts.stack := stack }
  | none => s

/-- `thread_stack__call_return` for the entry above `stack`. -/
def callReturn (e : Entry) (stack : List Entry) (timestamp ref : UInt64) (noReturn : Bool) :
    Int × State :=
  let cr : CallReturn :=
    { comm := s.ts.comm, cp := e.cp, callTime := e.timestamp, returnTime := timestamp
      branchCount := s.ts.branchCount - e.branchCount, callRef := e.ref, returnRef := ref
      noCall := e.noCall, noReturn }
  let log := s.log ++ [.report (s.ts.crp.getD 0, cr)]
  (env.process log, { s with log, ts.stack := stack })

end

/-- The loop of `__thread_stack__flush`; on an error the rest is dropped. -/
def flushLoop (env : Env) : List Entry → State → Int × State
  | [], s => (0, s)
  | e :: stack, s =>
    match s.callReturn env e stack s.ts.lastTime 0 true with
    | (0, s) => flushLoop env stack s
    | (err, s) => (err, { s with ts.stack := [] })

/-- `__thread_stack__flush`. -/
def flush (s : State) : Int × State :=
  if s.ts.crp.isNone then (0, { s with ts.stack := [] }) else flushLoop env s.ts.stack s

def findnew (env : Env) (s : State) (parent : CallPath) (sym : Option ℕ) (ip : UInt64) :
    Option (CallPath × State) :=
  let crp := s.ts.crp.getD 0
  match (s.cprs crp).findnew parent sym ip s.ts.kernelStart (env.malloc s.allocs) with
  | some (cp, cpr) =>
    some (cp, { s with allocs := s.allocs + 1, cprs := Function.update s.cprs crp cpr })
  | none => none

/-- `thread_stack__push_cp`. -/
def pushCp (s : State) (retAddr timestamp ref : UInt64) (cp : CallPath) (noCall : Bool) :
    Int × State :=
  match s.grow env with
  | (0, s) =>
    let e : Entry :=
      { retAddr, timestamp, ref, branchCount := s.ts.branchCount, cp, noCall }
    (0, { s with log := s.log ++ [.push e], ts.stack := e :: s.ts.stack })
  | (err, s) => (err, s)

def pushNew (s : State) (parent : CallPath) (sym : Option ℕ) (ip retAddr : UInt64)
    (timestamp ref : UInt64) (noCall : Bool) : Int × State :=
  match s.findnew env parent sym ip with
  | none => (enomem, s)
  | some (cp, s) => s.pushCp env retAddr timestamp ref cp noCall

def unwind (env : Env) (retAddr timestamp ref : UInt64) : List Entry → State → Int × State
  | [], s => (1, s)
  | e :: stack, s =>
    if e.retAddr = retAddr then s.callReturn env e stack timestamp ref false
    else
      match s.callReturn env e stack timestamp ref true with
      | (0, s) => unwind env retAddr timestamp ref stack s
      | r => r

/-- `thread_stack__pop_cp`; 1 if no entry has the return address. -/
def popCp (s : State) (retAddr timestamp ref : UInt64) (sym : Option ℕ) : Int × State :=
  match s.ts.stack with
  | [] => (1, s)
  | e :: stack =>
    if stack = [] ∧ e.cp.sym = sym then s.callReturn env e stack timestamp ref false
    else if e.retAddr = retAddr then s.callReturn env e stack timestamp ref false
    else if stack.any (·.retAddr = retAddr) then unwind env retAddr timestamp ref (e :: stack) s
    else (1, s)

end State

/-- The fields of `struct perf_sample` that are read here. -/
structure Sample where
  ip : UInt64
  addr : UInt64
  time : UInt64
  flags : UInt32
  insnLen : UInt16 := 0
  deriving DecidableEq, Repr

/-- One call of `thread_stack__process`. -/
structure Call where
  comm : Option ℕ
  sample : Sample
  fromSym : Option ℕ := none
  toSym : Option ℕ := none
  ref : UInt64 := 0
  crp : ℕ := 0

def flagCall : UInt32 := 2

def flagReturn : UInt32 := 4

def flagTraceBegin : UInt32 := 256

def flagTraceEnd : UInt32 := 512

/-- `flags & flag`. -/
def hasFlag (flags flag : UInt32) : Bool := flags &&& flag ≠ 0

namespace State

variable (env : Env)

/-- `thread_stack__bottom`. -/
def bottom (s : State) (c : Call) : Int × State :=
  let root := CallPathRoot.callPath
  if c.sample.ip ≠ 0 then
    s.pushNew env root c.fromSym c.sample.ip c.sample.ip c.sample.time c.ref true
  else if c.sample.addr ≠ 0 then
    s.pushNew env root c.toSym c.sample.addr c.sample.addr c.sample.time c.ref true
  else (0, s)

def leaveKernel (env : Env) (timestamp ref : UInt64) : List Entry → State → Int × State
  | [], s => (0, s)
  | e :: stack, s =>
    if e.cp.inKernel then
      match s.callReturn env e stack timestamp ref true with
      | (0, s) => leaveKernel env timestamp ref stack s
      | r => r
    else (0, s)

/-- `thread_stack__in_kernel`. -/
def inKernel (s : State) : Bool := s.ts.stack.head?.any (·.cp.inKernel)

variable (s : State) (c : Call)

def pushPop : Int × State :=
  let parent := (s.ts.stack.head?.map (·.cp)).getD CallPathRoot.callPath
  match s.pushNew env parent c.fromSym c.sample.ip c.sample.addr c.sample.time c.ref true with
  | (0, s) => s.popCp env c.sample.addr c.sample.time c.ref c.toSym
  | r => r

/-- `thread_stack__no_call_return`. -/
def noCallReturn : Int × State :=
  let ks := s.ts.kernelStart
  if ks ≤ c.sample.ip ∧ c.sample.addr < ks then
    match leaveKernel env c.sample.time c.ref s.ts.stack s with
    | (0, s) =>
      if s.ts.stack = [] then
        s.pushNew env CallPathRoot.callPath c.toSym c.sample.addr 0 c.sample.time c.ref true
      else s.pushPop env c
    | r => r
  else if s.inKernel ∧ c.sample.ip < ks then
    match leaveKernel env c.sample.time c.ref s.ts.stack s with
    | (0, s) => s.pushPop env c
    | r => r
  else s.pushPop env c

/-- `thread_stack__trace_begin`. -/
def traceBegin (timestamp ref : UInt64) : Int × State :=
  match s.ts.stack with
  | [] => (0, s)
  | e :: stack =>
    if e.cp.sym = none ∧ e.cp.ip = 0 then s.callReturn env e stack timestamp ref false else (0, s)

/-- `thread_stack__trace_end`. -/
def traceEnd (sample : Sample) (ref : UInt64) : Int × State :=
  match s.ts.stack with
  | [] => (0, s)
  | e :: stack =>
    if stack = [] ∧ e.ref = ref then (0, s)
    else
      s.pushNew env e.cp none 0 (sample.ip + sample.insnLen.toUInt64) sample.time ref false

def branch : Option (Int × State) :=
  let sample := c.sample
  if hasFlag sample.flags flagCall then
    if sample.ip = 0 ∨ sample.addr = 0 then some (0, s)
    else
      let retAddr := sample.ip + sample.insnLen.toUInt64
      if retAddr = sample.addr then some (0, s)
      else
        s.ts.stack.head?.map fun e =>
          s.pushNew env e.cp c.toSym sample.addr retAddr sample.time c.ref false
  else if hasFlag sample.flags flagReturn then
    if sample.ip = 0 ∨ sample.addr = 0 then some (0, s)
    else
      match s.popCp env sample.addr sample.time c.ref c.fromSym with
      | (0, s) => some (0, s)
      | (err, s) => if err < 0 then some (err, s) else some (s.noCallReturn env c)
  else if hasFlag sample.flags flagTraceBegin then some (s.traceBegin env sample.time c.ref)
  else if hasFlag sample.flags flagTraceEnd then some (s.traceEnd env sample c.ref)
  else some (0, s)

def count (time : UInt64) : State :=
  { s with
    log := s.log ++ [.tick]
    ts.branchCount := s.ts.branchCount + 1
    ts.lastTime := time }

def exec (comm : Option ℕ) : Int × State :=
  if s.ts.comm ≠ comm ∧ env.leader then
    match s.flush env with
    | (0, s) => (0, { s with ts.comm := comm })
    | r => r
  else (0, s)

def process : Option (Int × State) :=
  match s.exec env c.comm with
  | (0, s) =>
    match if s.ts.stack = [] then s.bottom env c else (0, s) with
    | (0, s) => (s.count c.sample.time).branch env c
    | r => some r
  | r => some r

end State

namespace Thread

/-- The entries of the stack, if the thread has one. -/
def stack (t : Thread) : List Entry := (t.ts.map (·.stack)).getD []

def process (env : Env) (t : Thread) (c : Call) : Option (Int × Thread) :=
  let s : Option State :=
    match t.ts with
    | some ts => if ts.crp.isSome then some { t.toShared with ts } else created
    | none => created
  match s with
  | none => some (enomem, { t with ts := none })
  | some s => (s.process env c).map fun r => (r.1, r.2.thread)
where
  created : Option State := (new env t (some c.crp)).map fun s => { s with ts.comm := c.comm }

/-- `thread_stack__flush`. -/
def flush (env : Env) (t : Thread) : Int × Thread :=
  match t.ts with
  | none => (0, t)
  | some ts =>
    let r := State.flush env { t.toShared with ts }
    (r.1, r.2.thread)

/-- The thread after a sequence of calls, whatever they return. -/
def run (env : Env) (t : Thread) : List Call → Option Thread
  | [] => some t
  | c :: calls => (t.process env c).bind fun r => r.2.run env calls

/-- One call of `thread_stack__event`. -/
structure Branch where
  flags : UInt32
  fromIp : UInt64
  toIp : UInt64
  insnLen : UInt16 := 0
  traceNr : UInt64 := 0
  deriving DecidableEq, Repr

/-- Where a call returns to. -/
def Branch.retAddr (b : Branch) : UInt64 := b.fromIp + b.insnLen.toUInt64

def eventOn (env : Env) (s : State) (b : Branch) : Option (Int × State) :=
  let s :=
    if b.traceNr ≠ s.ts.traceNr then
      let s := if s.ts.traceNr ≠ 0 then (s.flush env).2 else s
      { s with ts.traceNr := b.traceNr }
    else s
  if s.ts.crp.isSome then some (0, s)
  else if hasFlag b.flags flagCall then
    if b.toIp = 0 then some (0, s)
    else if b.retAddr = b.toIp then some (0, s)
    else s.push env b.retAddr
  else if hasFlag b.flags flagReturn then
    if b.fromIp = 0 then some (0, s) else some (0, s.pop b.toIp)
  else some (0, s)

/-- `thread_stack__event` for a thread. -/
def event (env : Env) (t : Thread) (b : Branch) : Option (Int × Thread) :=
  match t.ts with
  | some ts => (eventOn env { t.toShared with ts } b).map fun r => (r.1, r.2.thread)
  | none =>
    match new env t none with
    | none => some (enomem, t)
    | some s =>
      (eventOn env { s with ts.traceNr := b.traceNr } b).map fun r => (r.1, r.2.thread)

/-- The thread after a sequence of events. -/
def events (env : Env) (t : Thread) : List Branch → Option Thread
  | [] => some t
  | b :: bs => (t.event env b).bind fun r => r.2.events env bs

/-- `thread_stack__set_trace_nr`. -/
def setTraceNr (env : Env) (t : Thread) (traceNr : UInt64) : Thread :=
  match t.ts with
  | none => t
  | some ts =>
    if traceNr ≠ ts.traceNr then
      let s : State := { t.toShared with ts }
      let s := if ts.traceNr ≠ 0 then (s.flush env).2 else s
      State.thread { s with ts.traceNr := traceNr }
    else t

/-- The loop of `thread_stack__sample`; `none` if it leaves the array or the stack. -/
def chainIps : ℕ → ℕ → List Entry → Option (List UInt64)
  | 0, _, _ => some []
  | n + 1, room + 1, e :: stack => (chainIps n room stack).map (e.retAddr :: ·)
  | _ + 1, _, _ => none

/-- `thread_stack__sample`: `chain->nr` and `chain->ips`, an array of `sz` addresses. -/
def sample (t : Thread) (sz : ℕ) (ip : UInt64) : Option (ℕ × List UInt64) :=
  let nr := if t.ts.isNone then 1 else min sz (t.stack.length + 1)
  match sz with
  | 0 => none
  | room + 1 => (chainIps (nr - 1) room t.stack).map fun ips => (nr, ip :: ips)

end Thread

end RPerf.Threads
