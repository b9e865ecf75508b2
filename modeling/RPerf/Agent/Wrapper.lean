import RPerf.Lib.Jvm

/-!
# The wrapper around a profiled method

`generate_method_to_profile` of `ClassInstrumenter.java` and the table of
`MemInstrHelper.java`.
-/

namespace RPerf.Agent

open Lib Lib.Jvm

/-- The sorts of an `org.objectweb.asm.Type`. -/
inductive TypeSort
  | void | boolean | char | byte | short | int | float | long | double | array | object
  deriving DecidableEq, Repr

/-- The computational type of the values of a type. -/
def TypeSort.kind : TypeSort → Option Kind
  | .void => none
  | .boolean | .char | .byte | .short | .int => some .int
  | .float => some .float
  | .long => some .long
  | .double => some .double
  | .array | .object => some .ref

structure MemInstrHelper where
  loadInstr : Opcode
  storeInstr : Opcode
  retInstr : Opcode
  opSize : ℕ
  deriving DecidableEq, Repr

def instrHelperByOpType : TypeSort → MemInstrHelper
  | .void => ⟨.illegal, .illegal, .return_, 0⟩
  | .boolean => ⟨.iload, .istore, .ireturn, 1⟩
  | .byte => ⟨.iload, .istore, .ireturn, 1⟩
  | .char => ⟨.iload, .istore, .ireturn, 1⟩
  | .short => ⟨.iload, .istore, .ireturn, 1⟩
  | .int => ⟨.iload, .istore, .ireturn, 1⟩
  | .float => ⟨.fload, .fstore, .freturn, 1⟩
  | .object => ⟨.aload, .astore, .areturn, 1⟩
  | .array => ⟨.aload, .astore, .areturn, 1⟩
  | .long => ⟨.lload, .lstore, .lreturn, 2⟩
  | .double => ⟨.dload, .dstore, .dreturn, 2⟩

/-- A method descriptor. -/
structure MethodDesc where
  args : List TypeSort
  ret : TypeSort
  args_ne_void : ∀ t ∈ args, t ≠ .void
  deriving DecidableEq, Repr

def MethodDesc.argKinds (desc : MethodDesc) : List Kind := desc.args.filterMap TypeSort.kind

structure MethodRef where
  owner : String
  name : String
  desc : MethodDesc
  deriving DecidableEq, Repr

def MethodRef.method (m : MethodRef) : Method MethodRef := ⟨m, m.desc.argKinds, m.desc.ret.kind⟩

structure MethodToGenerateInfo where
  access : UInt32
  name : String
  desc : MethodDesc
  methodToCall : String
  clazzName : String
  deriving DecidableEq, Repr

def accStatic : UInt32 := 0x0008

section

variable (info : MethodToGenerateInfo)

def MethodToGenerateInfo.isStatic : Bool :=
  info.access &&& accStatic ≠ 0

inductive Label
  | tryBegin | tryEnd | finallyBegin
  deriving DecidableEq, Repr

/-- What a `MethodVisitor` is told. -/
inductive Visit
  | insn (i : Insn MethodRef)
  | label (l : Label)
  deriving DecidableEq, Repr

/-- A method of `PerfPtProf`, with the descriptor `()V`. -/
def perfPtProf (name : String) : MethodRef :=
  ⟨"ru/raiffeisen/PerfPtProf", name, ⟨[], .void, by simp⟩⟩

def emitTracerEnd (methodName : String) : List Visit :=
  [.insn (.method .invokestatic (perfPtProf methodName).method)]

def emitTracerStart (idx : ℕ) : List Visit × ℕ :=
  if info.isStatic then (emitTracerEnd "start", idx)
  else (emitTracerEnd "start" ++ [.insn (.var .aload 0)], idx + 1)

/-- The loop over the argument types in `emit_impl_call`. -/
def emitLoads : List TypeSort → ℕ → List Visit × ℕ
  | [], localHeadTop => ([], localHeadTop)
  | t :: ts, localHeadTop =>
    let instrType := instrHelperByOpType t
    let r := emitLoads ts (localHeadTop + instrType.opSize)
    (.insn (.var instrType.loadInstr localHeadTop) :: r.1, r.2)

def MethodToGenerateInfo.impl : MethodRef :=
  ⟨info.clazzName, info.methodToCall, info.desc⟩

def emitImplCall (localHeadTop : ℕ) : List Visit × ℕ :=
  let r := emitLoads info.desc.args localHeadTop
  let callOpcode := if info.isStatic then Opcode.invokestatic else .invokevirtual
  (r.1 ++ [.insn (.method callOpcode info.impl.method)], r.2)

def emitNormalReturn (localHeapTop : ℕ) : List Visit × ℕ :=
  let instrHelper := instrHelperByOpType info.desc.ret
  if info.desc.ret ≠ .void then
    let retValueIdx := localHeapTop + 1
    ([.insn (.var instrHelper.storeInstr retValueIdx),
      .insn (.var instrHelper.loadInstr retValueIdx), .insn (.plain instrHelper.retInstr)],
      retValueIdx)
  else ([.insn (.plain .return_)], localHeapTop)

def emitExceptionHandler (localHeapTop : ℕ) (handlerBody : ℕ → List Visit × ℕ) : List Visit × ℕ :=
  let exceptionIdx := localHeapTop + 1
  let r := handlerBody exceptionIdx
  ([.insn (.var .astore exceptionIdx)] ++ r.1 ++
    [.insn (.var .aload exceptionIdx), .insn (.plain .athrow)], r.2)

def insnsOf (visits : List Visit) : List (Insn MethodRef) :=
  visits.filterMap fun | .insn i => some i | .label _ => none

def offsetOf (l : Label) : List Visit → ℕ
  | [] => 0
  | .label l' :: visits => if l' = l then 0 else offsetOf l visits
  | .insn _ :: visits => offsetOf l visits + 1

def generateMethodToProfile : Code MethodRef :=
  let start := emitTracerStart info 0
  let call := emitImplCall info start.2
  let ret := emitNormalReturn info call.2
  let handler := emitExceptionHandler ret.2 fun heapTop => (emitTracerEnd "stop", heapTop)
  let visits := start.1 ++ [.label .tryBegin] ++ call.1 ++ [.label .tryEnd] ++
    emitTracerEnd "stop" ++ ret.1 ++ [.label .finallyBegin] ++ handler.1
  { insns := insnsOf visits
    handlers := [⟨offsetOf .tryBegin visits, offsetOf .tryEnd visits,
      offsetOf .finallyBegin visits⟩]
    maxStack := handler.2 + 1
    maxLocals := handler.2 + 1
    ret := info.desc.ret.kind }

theorem instrHelperByOpType_spec {t : TypeSort} {k : Kind} (h : t.kind = some k) :
    (instrHelperByOpType t).loadInstr = k.loadOp ∧
      (instrHelperByOpType t).storeInstr.loads = none ∧
      (instrHelperByOpType t).storeInstr.stores = some k ∧
      (instrHelperByOpType t).retInstr.returns = some (some k) ∧
      (instrHelperByOpType t).opSize = k.size := by
  cases t <;> cases h <;> decide

theorem TypeSort.exists_kind {t : TypeSort} (h : t ≠ .void) : ∃ k, t.kind = some k := by
  cases t
  case void => exact absurd rfl h
  all_goals exact ⟨_, rfl⟩

def slots (ks : List Kind) : ℕ := (ks.map Kind.size).sum

theorem width_eq_slots {β : Type*} (vs : List (Value β)) :
    width vs = slots (vs.map Value.kind) := by
  simp [width, slots, Function.comp_def]

theorem emitLoads_eq {ts : List TypeSort} (hts : ∀ t ∈ ts, t ≠ .void) (top : ℕ) :
    emitLoads ts top = ((loadFrom top (ts.filterMap TypeSort.kind)).map .insn,
      top + slots (ts.filterMap TypeSort.kind)) := by
  induction ts generalizing top with
  | nil => rfl
  | cons t ts ih =>
    obtain ⟨k, hk⟩ := TypeSort.exists_kind (hts t List.mem_cons_self)
    obtain ⟨hload, -, -, -, hsize⟩ := instrHelperByOpType_spec hk
    have hrest := ih (fun t ht => hts t (List.mem_cons_of_mem _ ht)) (top + k.size)
    simp only [emitLoads, hload, hsize, hrest, List.filterMap_cons, hk, loadFrom, List.map_cons,
      slots, List.sum_cons, Nat.add_assoc]

/-- The types of the receiver, if there is one, and of the arguments. -/
def MethodToGenerateInfo.params : List Kind :=
  if info.isStatic then info.desc.argKinds else .ref :: info.desc.argKinds

def startInsn : Insn MethodRef := .method .invokestatic (perfPtProf "start").method

def stopInsn : Insn MethodRef := .method .invokestatic (perfPtProf "stop").method

def MethodToGenerateInfo.callInsn : Insn MethodRef :=
  .method (if info.isStatic then .invokestatic else .invokevirtual) info.impl.method

def MethodToGenerateInfo.retInsns : List (Insn MethodRef) :=
  insnsOf (emitNormalReturn info (slots info.params)).1

def MethodToGenerateInfo.exceptionIdx : ℕ :=
  (emitNormalReturn info (slots info.params)).2 + 1

def MethodToGenerateInfo.handlerInsns : List (Insn MethodRef) :=
  [.var .astore info.exceptionIdx, stopInsn, .var .aload info.exceptionIdx, .plain .athrow]

theorem append_labels (a b c d e : List Visit) (x y z : Visit) :
    a ++ [x] ++ b ++ [y] ++ c ++ d ++ [z] ++ e = a ++ x :: (b ++ y :: ((c ++ d) ++ z :: e)) := by
  simp

theorem offsetOf_append_insns (l : Label) (is : List (Insn MethodRef)) (visits : List Visit) :
    offsetOf l (is.map .insn ++ visits) = is.length + offsetOf l visits := by
  induction is with
  | nil => simp
  | cons i is ih =>
    rw [List.map_cons, List.cons_append, offsetOf, ih, List.length_cons]
    omega

theorem emitTracerStart_spec :
    ∃ (recv : List (Insn MethodRef)) (idx : ℕ),
      emitTracerStart info 0 = ((startInsn :: recv).map .insn, idx) ∧
      recv ++ loadFrom idx info.desc.argKinds = loadFrom 0 info.params ∧
      idx + slots info.desc.argKinds = slots info.params ∧
      recv.length + 1 = if info.isStatic then 1 else 2 := by
  by_cases hstatic : info.isStatic = true
  · refine ⟨[], 0, ?_, ?_, ?_, ?_⟩ <;>
      simp [emitTracerStart, hstatic, emitTracerEnd, startInsn, MethodToGenerateInfo.params]
  · refine ⟨[.var .aload 0], 1, ?_, ?_, ?_, ?_⟩ <;>
      simp [emitTracerStart, hstatic, emitTracerEnd, startInsn, MethodToGenerateInfo.params,
        loadFrom, slots, Kind.loadOp, Kind.size]

theorem emitImplCall_eq (top : ℕ) :
    emitImplCall info top = ((loadFrom top info.desc.argKinds ++ [info.callInsn]).map .insn,
      top + slots info.desc.argKinds) := by
  rw [emitImplCall, emitLoads_eq info.desc.args_ne_void, List.map_append]
  rfl

theorem emitNormalReturn_fst (top : ℕ) :
    (emitNormalReturn info top).1 = (insnsOf (emitNormalReturn info top).1).map .insn := by
  unfold emitNormalReturn
  split_ifs <;> rfl

theorem offsetOf_labels (a b c : List (Insn MethodRef)) (e : List Visit) :
    let visits := a.map Visit.insn ++ Visit.label .tryBegin ::
      (b.map Visit.insn ++ Visit.label .tryEnd ::
        (c.map Visit.insn ++ Visit.label .finallyBegin :: e))
    offsetOf .tryBegin visits = a.length ∧
      offsetOf .tryEnd visits = a.length + b.length ∧
        offsetOf .finallyBegin visits = a.length + b.length + c.length := by
  refine ⟨?_, ?_, ?_⟩ <;> simp [offsetOf, offsetOf_append_insns, Nat.add_assoc]

theorem generateMethodToProfile_eq :
    generateMethodToProfile info =
      { insns := startInsn :: (loadFrom 0 info.params ++
          (info.callInsn :: stopInsn :: (info.retInsns ++ info.handlerInsns)))
        handlers := [⟨if info.isStatic then 1 else 2, info.params.length + 2,
          info.params.length + 3 + info.retInsns.length⟩]
        maxStack := info.exceptionIdx + 1
        maxLocals := info.exceptionIdx + 1
        ret := info.desc.ret.kind } := by
  obtain ⟨recv, idx, hstart, hload, hslots, hlen⟩ := emitTracerStart_spec info
  have hret : (emitNormalReturn info (slots info.params)).1 = info.retInsns.map .insn :=
    emitNormalReturn_fst info (slots info.params)
  have hstop : emitTracerEnd "stop" = [stopInsn].map .insn := rfl
  have hhandler : emitExceptionHandler (emitNormalReturn info (slots info.params)).2
      (fun heapTop => ([stopInsn].map .insn, heapTop)) =
        (info.handlerInsns.map .insn, info.exceptionIdx) := rfl
  have hparams : recv.length + info.desc.argKinds.length = info.params.length := by
    have hlength := congrArg List.length hload
    rwa [List.length_append, length_loadFrom, length_loadFrom] at hlength
  unfold generateMethodToProfile
  simp only [hstart, emitImplCall_eq, hslots, hret, hstop, hhandler]
  rw [append_labels, ← List.map_append]
  simp only [Code.mk.injEq, List.cons.injEq, Handler.mk.injEq, and_true]
  obtain ⟨hbegin, hend, hfinally⟩ := offsetOf_labels (startInsn :: recv)
    (loadFrom idx info.desc.argKinds ++ [info.callInsn]) ([stopInsn] ++ info.retInsns)
    (info.handlerInsns.map .insn)
  refine ⟨?_, ?_, ?_, ?_⟩
  · rw [← hload]
    simp [insnsOf]
  · rw [hbegin]
    exact hlen
  · rw [hend, List.length_cons, List.length_append, length_loadFrom, List.length_singleton]
    omega
  · rw [hfinally, List.length_cons, List.length_append, List.length_append, length_loadFrom,
      List.length_singleton, List.length_singleton]
    omega

end

section

variable {β : Type*} {env : Env MethodRef β} {info : MethodToGenerateInfo} {vs : List (Value β)}

theorem callInsn_receives (hvs : vs.map Value.kind = info.params) :
    ∃ op, info.callInsn = .method op info.impl.method ∧
      op.receives info.impl.method.args = some (vs.map Value.kind) := by
  refine ⟨_, rfl, ?_⟩
  rw [hvs, MethodToGenerateInfo.params]
  split_ifs <;> rfl

theorem step_tracer {code : Code MethodRef} {name : String} {f : Frame MethodRef β}
    (h : code.insns[f.pc]? = some (.method .invokestatic (perfPtProf name).method))
    (henv : env f.calls (perfPtProf name) [] = .returned none) :
    Jvm.step env code f =
      .again { f with pc := f.pc + 1, calls := f.calls ++ [⟨perfPtProf name, []⟩] } :=
  step_call_void [] h rfl rfl rfl henv

structure Wraps (info : MethodToGenerateInfo) (code : Code MethodRef) : Prop where
  start : code.insns[0]? = some startInsn
  loads : OccursAt (loadFrom 0 info.params) code.insns 1
  call : code.insns[1 + info.params.length]? = some info.callInsn
  stop : code.insns[2 + info.params.length]? = some stopInsn
  ret : OccursAt info.retInsns code.insns (3 + info.params.length)
  handler : OccursAt info.handlerInsns code.insns (3 + info.params.length + info.retInsns.length)
  handlers : code.handlers = [⟨if info.isStatic then 1 else 2, info.params.length + 2,
    3 + info.params.length + info.retInsns.length⟩]
  maxStack : code.maxStack = info.exceptionIdx + 1
  maxLocals : code.maxLocals = info.exceptionIdx + 1
  retKind : code.ret = info.desc.ret.kind

theorem wraps_generate (info : MethodToGenerateInfo) :
    Wraps info (generateMethodToProfile info) := by
  rw [generateMethodToProfile_eq]
  obtain ⟨hstart, h⟩ := OccursAt.cons (i := 0) (List.prefix_refl (startInsn ::
    (loadFrom 0 info.params ++
      (info.callInsn :: stopInsn :: (info.retInsns ++ info.handlerInsns)))))
  obtain ⟨hloads, h⟩ := h.append
  rw [length_loadFrom] at h
  obtain ⟨hcall, h⟩ := h.cons
  obtain ⟨hstop, h⟩ := h.cons
  obtain ⟨hret, hhandler⟩ := h.append
  have h2 : 0 + 1 + info.params.length + 1 = 2 + info.params.length := by omega
  have h3 : 0 + 1 + info.params.length + 1 + 1 = 3 + info.params.length := by omega
  rw [h2] at hstop
  rw [h3] at hret hhandler
  rw [Nat.zero_add] at hloads hcall
  refine ⟨hstart, hloads, hcall, hstop, hret, hhandler, ?_, rfl, rfl, rfl⟩
  rw [Nat.add_comm info.params.length 3]

theorem slots_lt_exceptionIdx (info : MethodToGenerateInfo) :
    slots info.params < info.exceptionIdx := by
  unfold MethodToGenerateInfo.exceptionIdx emitNormalReturn
  split_ifs
  · exact Nat.lt_succ_of_lt (Nat.lt_succ_self _)
  · exact Nat.lt_succ_self _

theorem exceptionIdx_of_kind {k : Kind} (h : info.desc.ret.kind = some k) :
    info.desc.ret ≠ .void ∧ info.exceptionIdx = slots info.params + 2 := by
  have hne : info.desc.ret ≠ .void := by
    intro hvoid
    rw [hvoid] at h
    exact absurd h nofun
  refine ⟨hne, ?_⟩
  simp [MethodToGenerateInfo.exceptionIdx, emitNormalReturn, hne]

theorem Kind.size_le_two (k : Kind) : k.size ≤ 2 := by
  cases k <;> decide

variable {code : Code MethodRef} {l : Locals β} {calls : List (Call MethodRef β)}

/-- Up to the call of the renamed method. -/
theorem Wraps.visits_call (h : Wraps info code) (hvs : vs.map Value.kind = info.params)
    (hstart : env [] (perfPtProf "start") [] = .returned none) :
    Visits (Jvm.step env code) { locals := Locals.entry 0 vs }
      { pc := 1 + info.params.length, locals := Locals.entry 0 vs, stack := vs.reverse
        calls := [⟨perfPtProf "start", []⟩] } := by
  have hmaxStack := h.maxStack
  have hmaxLocals := h.maxLocals
  have hlen : vs.length = info.params.length := by rw [← hvs, List.length_map]
  have hwidth : width vs = slots info.params := by rw [width_eq_slots, hvs]
  have hfits := slots_lt_exceptionIdx info
  let f : Frame MethodRef β :=
    { pc := 1, locals := Locals.entry 0 vs, calls := [⟨perfPtProf "start", []⟩] }
  have hat : OccursAt (loadFrom 0 (vs.map Value.kind)) code.insns f.pc := by
    rw [hvs]
    exact h.loads
  have hloads : Visits (Jvm.step env code) f
      { f with pc := f.pc + vs.length, stack := vs.reverse ++ f.stack } := by
    refine visits_loadFrom hat (Locals.stored_entry 0 vs) (by omega) ?_
    change width vs + 0 ≤ _
    omega
  have hend : ({ f with pc := f.pc + vs.length, stack := vs.reverse ++ f.stack } :
      Frame MethodRef β) = { pc := 1 + info.params.length, locals := Locals.entry 0 vs
                             stack := vs.reverse, calls := [⟨perfPtProf "start", []⟩] } := by
    simp [f, hlen]
  rw [hend] at hloads
  exact .again (step_tracer h.start hstart) hloads

/-- From a normal end of the renamed method on. -/
theorem Wraps.leaves_returned (h : Wraps info code) {v : Option (Value β)}
    (hv : v.map Value.kind = info.desc.ret.kind)
    (hstop : ∀ calls, env calls (perfPtProf "stop") [] = .returned none) :
    Leaves (Jvm.step env code)
      { pc := 2 + info.params.length, locals := l, stack := v.toList, calls := calls }
      (.ended (.returned v) (calls ++ [⟨perfPtProf "stop", []⟩])) := by
  have hmaxStack := h.maxStack
  have hmaxLocals := h.maxLocals
  have hat := h.ret
  have hpc : 2 + info.params.length + 1 = 3 + info.params.length := by omega
  refine .again (step_tracer h.stop (hstop _)) ?_
  simp only [hpc]
  cases v with
  | none =>
    have hvoid : info.desc.ret = .void := by
      by_contra hne
      obtain ⟨k, hk⟩ := TypeSort.exists_kind hne
      rw [hk] at hv
      exact absurd hv nofun
    have hinsns : info.retInsns = [.plain .return_] := by
      simp [MethodToGenerateInfo.retInsns, emitNormalReturn, hvoid, insnsOf]
    rw [hinsns] at hat
    exact .leave (step_returnVoid hat.cons.1 rfl (h.retKind.trans hv.symm))
  | some v =>
    have hkind : info.desc.ret.kind = some v.kind := hv.symm
    obtain ⟨hne, hidx⟩ := exceptionIdx_of_kind hkind
    obtain ⟨hload, hnoload, hstore, hreturns, -⟩ := instrHelperByOpType_spec hkind
    have hinsns : info.retInsns =
        [.var (instrHelperByOpType info.desc.ret).storeInstr (slots info.params + 1),
          .var v.kind.loadOp (slots info.params + 1),
          .plain (instrHelperByOpType info.desc.ret).retInstr] := by
      simp [MethodToGenerateInfo.retInsns, emitNormalReturn, hne, insnsOf, hload]
    have hsize := Kind.size_le_two v.kind
    rw [hinsns] at hat
    obtain ⟨h1, hat⟩ := hat.cons
    obtain ⟨h2, hat⟩ := hat.cons
    refine .again (step_store h1 hnoload hstore (by omega) rfl) ?_
    refine .again (step_load h2 v.kind.loads_loadOp (Locals.load_store _ _ v) (by omega) ?_) ?_
    · rw [width_cons]
      change v.kind.size + 0 ≤ _
      omega
    · exact .leave (step_return hat.cons.1 hreturns (h.retKind.trans hkind) rfl)

/-- From the handler on. -/
theorem Wraps.leaves_handler (h : Wraps info code) {e : β}
    (hstop : ∀ calls, env calls (perfPtProf "stop") [] = .returned none) :
    Leaves (Jvm.step env code)
      { pc := 3 + info.params.length + info.retInsns.length, locals := l, stack := [⟨.ref, e⟩]
        calls := calls }
      (.ended (.threw e) (calls ++ [⟨perfPtProf "stop", []⟩])) := by
  have hmaxStack := h.maxStack
  have hmaxLocals := h.maxLocals
  obtain ⟨h1, hat⟩ := h.handler.cons
  obtain ⟨h2, hat⟩ := hat.cons
  obtain ⟨h3, hat⟩ := hat.cons
  obtain ⟨h4, -⟩ := hat.cons
  have hroom : info.exceptionIdx + Kind.ref.size ≤ code.maxLocals := by
    rw [hmaxLocals]
    exact le_rfl
  refine .again (step_store (v := ⟨.ref, e⟩) h1 rfl rfl hroom rfl) ?_
  refine .again (step_tracer h2 (hstop _)) ?_
  refine .again (step_load (v := ⟨.ref, e⟩) h3 rfl (Locals.load_store _ _ _) hroom ?_) ?_
  · change 1 + 0 ≤ _
    omega
  · refine .leave (step_athrow h4 rfl ?_)
    rw [h.handlers]
    intro x hx
    obtain rfl := List.mem_singleton.mp hx
    dsimp only
    omega

end

/-- The wrapper is transparent: it makes three calls, `start`, the renamed method with the receiver
and arguments of its own, and `stop`, and it ends as the renamed method did. -/
theorem wrapper_transparent {β : Type*} (env : Env MethodRef β) (info : MethodToGenerateInfo)
    (vs : List (Value β)) (hvs : vs.map Value.kind = info.params)
    (hstart : env [] (perfPtProf "start") [] = .returned none)
    (hstop : ∀ calls, env calls (perfPtProf "stop") [] = .returned none)
    (himpl : ∀ v, env [⟨perfPtProf "start", []⟩] info.impl vs = .returned v →
      v.map Value.kind = info.desc.ret.kind) :
    Leaves (Jvm.step env (generateMethodToProfile info)) { locals := Locals.entry 0 vs }
      (.ended (env [⟨perfPtProf "start", []⟩] info.impl vs)
        [⟨perfPtProf "start", []⟩, ⟨info.impl, vs⟩, ⟨perfPtProf "stop", []⟩]) := by
  have h := wraps_generate info
  generalize generateMethodToProfile info = code at h ⊢
  refine (h.visits_call hvs hstart).leaves ?_
  obtain ⟨op, hcall, hop⟩ := callInsn_receives hvs
  have hinsn := h.call
  rw [hcall] at hinsn
  have hstack : vs.reverse = vs.reverse ++ [] := (List.append_nil _).symm
  have hmaxStack := h.maxStack
  cases hout : env [⟨perfPtProf "start", []⟩] info.impl vs with
  | returned v =>
    have hkind := himpl v hout
    cases v with
    | none =>
      refine .again (step_call_void vs hinsn hop hstack hkind.symm hout) ?_
      rw [Nat.add_right_comm]
      exact h.leaves_returned hkind hstop
    | some v =>
      have hsize := Kind.size_le_two v.kind
      obtain ⟨-, hidx⟩ := exceptionIdx_of_kind hkind.symm
      refine .again (step_call_value vs hinsn hop hstack hkind.symm hout ?_) ?_
      · rw [width_cons]
        change v.kind.size + 0 ≤ _
        omega
      · rw [Nat.add_right_comm]
        exact h.leaves_returned hkind hstop
  | threw e =>
    have hparams : info.isStatic = false → 1 ≤ info.params.length := by
      intro hstatic
      simp [MethodToGenerateInfo.params, hstatic]
    refine .again (step_call_threw vs hinsn hop hstack hout h.handlers ?_ (by omega)) ?_
    · dsimp only
      split_ifs with hstatic
      · omega
      · have := hparams (by simpa using hstatic)
        omega
    · exact h.leaves_handler hstop

/-- An instance method `double f(long, int)`. -/
def scaleInfo : MethodToGenerateInfo where
  access := 0x0001
  name := "scale"
  desc := ⟨[.long, .int], .double, by decide⟩
  methodToCall := "scale_impl"
  clazzName := "Scaler"

def scaleEnv : Env MethodRef ℕ := fun _ m _ =>
  if m = scaleInfo.impl then .returned (some ⟨.double, 7⟩) else .returned none

theorem scale_transparent :
    Leaves (Jvm.step scaleEnv (generateMethodToProfile scaleInfo))
      { locals := Locals.entry 0 [⟨.ref, 1⟩, ⟨.long, 20⟩, ⟨.int, 3⟩] }
      (.ended (.returned (some ⟨.double, 7⟩))
        [⟨perfPtProf "start", []⟩, ⟨scaleInfo.impl, [⟨.ref, 1⟩, ⟨.long, 20⟩, ⟨.int, 3⟩]⟩,
          ⟨perfPtProf "stop", []⟩]) := by
  have himpl : ∀ v, scaleEnv [⟨perfPtProf "start", []⟩] scaleInfo.impl
      [⟨.ref, 1⟩, ⟨.long, 20⟩, ⟨.int, 3⟩] = .returned v →
      v.map Value.kind = scaleInfo.desc.ret.kind := by
    intro v hv
    obtain rfl : some ⟨.double, 7⟩ = v := Outcome.returned.inj hv
    rfl
  have hne : perfPtProf "stop" ≠ scaleInfo.impl := by decide
  have hstop : ∀ calls, scaleEnv calls (perfPtProf "stop") [] = .returned none :=
    fun _ => if_neg hne
  exact wrapper_transparent scaleEnv scaleInfo [⟨.ref, 1⟩, ⟨.long, 20⟩, ⟨.int, 3⟩]
    (by decide) (by decide) hstop himpl

end RPerf.Agent
