import RPerf.Code.AuxtraceCache
import RPerf.Decode.State

/-!
# Walking to the next branch

`intel_pt_walk_next_insn` of `intel-pt.c`, the callback behind the decoder's `walk_insn`.
-/

namespace RPerf.Code

open Lib Decode

/-- `struct map`, as far as the walk reads it. -/
structure Map (D : Type*) where
  start : UInt64
  endAddr : UInt64
  pgoff : UInt64 := 0
  dso : D
  identity : Bool := false

def Map.mapIp {D : Type*} (m : Map D) (ip : UInt64) : UInt64 :=
  if m.identity then ip else ip - m.start + m.pgoff

/-- The maps of a thread, for kernel and for user addresses. -/
structure Layout (D : Type*) where
  find : Bool → UInt64 → Option (Map D)
  holds : ∀ {kernel ip m}, find kernel ip = some m → m.start ≤ ip ∧ ip < m.endAddr

/-- `struct intel_pt_cache_entry`. -/
structure CacheEntry where
  insnCnt : UInt64
  byteCnt : UInt64
  insn : Insn

/-- What does not change between calls. -/
structure Env (D : Type*) where
  mem : UInt64 → UInt8
  decode : List UInt8 → Bool → Option Insn
  is64Bit : D → Bool
  hash32 : UInt32 → ℕ → ℕ
  stat : D → Option ℕ
  malloc : ℕ → Bool
  kernelStart : UInt64
  unknownThread : Layout D

structure World (D : Type*) where
  caches : D → Option (AuxtraceCache CacheEntry) := fun _ => none
  fileSize : D → ℕ := fun _ => 0
  error : D → Bool := fun _ => false
  seen : D → Bool := fun _ => false
  allocs : ℕ := 0

/-- One call; without a thread only kernel addresses can be walked. -/
structure Call (D : Type*) where
  thread : Option (Layout D)
  ip : UInt64
  toIp : UInt64 := 0
  maxInsnCnt : UInt64 := 0

variable {D : Type*}

/-- `INTEL_PT_INSN_BUF_SZ`. -/
def insnBufSz : ℕ := 16

def Env.read (env : Env D) (ip : UInt64) : List UInt8 :=
  (List.range insnBufSz).map fun i => env.mem (ip + UInt64.ofNat i)

/-- `intel_pt_get_insn`. -/
def Env.getInsn (env : Env D) (buf : List UInt8) (x86_64 : Bool) : Option Insn :=
  match env.decode buf x86_64 with
  | none => none
  | some insn =>
    if insnBufSz < insn.length then none else some { insn with buf := buf.take insn.length }

variable [DecidableEq D]

namespace World

variable (w : World D) (env : Env D) (d : D)

def dataSize : Option ℕ × World D :=
  if w.fileSize d ≠ 0 then (some (w.fileSize d), w)
  else if w.error d then (none, w)
  else
    match env.stat d with
    | none => (none, { w with error := Function.update w.error d true })
    | some size => (some size, { w with fileSize := Function.update w.fileSize d size })

/-- `intel_pt_cache_size` with the default divisor. -/
def cacheSize (size : Option ℕ) : ℕ :=
  let size := size.getD 0 / 64
  if size < 1000 then 10 else if 2 ^ 21 < size then 21 else size.log2 + 1

def cache : World D :=
  if (w.caches d).isSome then w
  else
    let r := w.dataSize env d
    let w := { r.2 with allocs := r.2.allocs + 1 }
    if env.malloc r.2.allocs then
      { w with caches := Function.update w.caches d (some (.new (cacheSize r.1) 200)) }
    else w

def cacheAdd (offset : UInt64) (e : CacheEntry) : World D :=
  let w := w.cache env d
  match w.caches d with
  | none => w
  | some c =>
    let w' := { w with allocs := w.allocs + 1 }
    if env.malloc w.allocs then
      { w' with caches := Function.update w.caches d (some (c.add env.hash32 offset.toUInt32 e)) }
    else w'

/-- `intel_pt_cache_lookup`; the 64-bit offset becomes a 32-bit key. -/
def cacheLookup (offset : UInt64) : Option CacheEntry × World D :=
  let w := w.cache env d
  (match w.caches d with
    | none => none
    | some c => c.lookup env.hash32 offset.toUInt32, w)

def statusSeen : Bool × World D :=
  if w.error d then (w.seen d, { w with seen := Function.update w.seen d true }) else (false, w)

end World

/-- The local variables of `intel_pt_walk_next_insn`; `map` is empty at the head of the outer loop.
-/
structure Walk (D : Type*) where
  ip : UInt64
  insnCnt : UInt64 := 0
  insn : Insn := {}
  oneMap : Bool := true
  map : Option (Map D) := none
  startOffset : UInt64 := 0
  startIp : UInt64 := 0
  world : World D

def Walk.fail (s : Walk D) (err : WalkErr) : Walked × World D :=
  ({ err := some err, insn := s.insn, ip := s.ip }, s.world)

/-- The label `out_no_cache`. -/
def Walk.outNoCache (s : Walk D) : Walked × World D :=
  ({ insn := s.insn, insnCnt := s.insnCnt, ip := s.ip }, s.world)

/-- The label `out`, at a branch. -/
def Walk.out (s : Walk D) (env : Env D) (c : Call D) (m : Map D) : Walked × World D :=
  let e : CacheEntry := { insnCnt := s.insnCnt, byteCnt := s.ip - s.startIp, insn := s.insn }
  if ¬ s.oneMap then s.outNoCache
  else
    -- to prevent duplicates: with a `to_ip` nothing has been looked up yet
    let r := if c.toIp ≠ 0 then s.world.cacheLookup env m.dso s.startOffset else (none, s.world)
    ({ insn := s.insn, insnCnt := s.insnCnt, ip := s.ip },
      if r.1.isSome then r.2 else r.2.cacheAdd env m.dso s.startOffset e)

variable (env : Env D)

def enterMap (c : Call D) (find : UInt64 → Option (Map D)) (s : Walk D) :
    Pass (Walk D) (Walked × World D) :=
  match find s.ip with
  | none => .leave (s.fail .other)
  | some m =>
    let seen := s.world.statusSeen m.dso
    if seen.1 then .leave ({ s with world := seen.2 }.fail .noent)
    else
      let s := { s with
        map := some m, startOffset := m.mapIp s.ip, startIp := s.ip, world := seen.2 }
      if c.toIp = 0 ∧ s.oneMap then
        let found := s.world.cacheLookup env m.dso s.startOffset
        let s := { s with world := found.2 }
        match found.1 with
        | some e =>
          if c.maxInsnCnt = 0 ∨ e.insnCnt ≤ c.maxInsnCnt then
            .leave ({ insn := e.insn, insnCnt := e.insnCnt, ip := s.ip + e.byteCnt }, s.world)
          else .again s
        | none => .again s
      else .again s

/-- One pass of the inner loop. -/
def nextInsn (c : Call D) (m : Map D) (s : Walk D) : Pass (Walk D) (Walked × World D) :=
  match env.getInsn (env.read s.ip) (env.is64Bit m.dso) with
  | none => .leave (s.fail .other)
  | some insn =>
    let s := { s with insn := insn, insnCnt := s.insnCnt + 1 }
    if insn.branch ≠ .noBranch then .leave (s.out env c m)
    else if c.maxInsnCnt ≠ 0 ∧ c.maxInsnCnt ≤ s.insnCnt then .leave s.outNoCache
    else
      let s := { s with ip := insn.next s.ip }
      if c.toIp ≠ 0 ∧ s.ip = c.toIp then .leave s.outNoCache
      else if m.endAddr ≤ s.ip then .again { s with map := none, oneMap := false }
      else .again s

def walkPass (c : Call D) (find : UInt64 → Option (Map D)) (s : Walk D) :
    Pass (Walk D) (Walked × World D) :=
  match s.map with
  | none => enterMap env c find s
  | some m => nextInsn env c m s

def Call.maps (c : Call D) (env : Env D) : Option (UInt64 → Option (Map D)) :=
  let kernel := decide (env.kernelStart ≤ c.ip)
  match c.thread with
  | some thread => some (thread.find kernel)
  | none => if kernel then some (env.unknownThread.find kernel) else none

def walkBound : ℕ := 2 ^ 64

def walkNextInsn (w : World D) (c : Call D) : Walked × World D :=
  let s : Walk D := { ip := c.ip, world := w }
  if c.toIp ≠ 0 ∧ c.ip = c.toIp then s.outNoCache
  else
    match c.maps env with
    | none => s.fail .other
    | some find => loop (walkPass env c find) (fun s => s.fail .other) walkBound s

/-- The world after a sequence of calls. -/
def afterCalls (w : World D) (calls : List (Call D)) : World D :=
  calls.foldl (fun w c => (walkNextInsn env w c).2) w

end RPerf.Code
