import RPerf.Lib.Loops
import RPerf.Lib.Occurrences

/-!
# Methods in Java bytecode

A machine for the straight-line code of one method: local variables, operand stack, calls,
exception table.
-/

namespace RPerf.Lib.Jvm

/-- Computational types. -/
inductive Kind
  | int | long | float | double | ref
  deriving DecidableEq, Repr

def Kind.size : Kind → ℕ
  | .long | .double => 2
  | _ => 1

inductive Opcode
  | iload | lload | fload | dload | aload
  | istore | lstore | fstore | dstore | astore
  | ireturn | lreturn | freturn | dreturn | areturn | return_
  | athrow | invokevirtual | invokestatic
  | illegal
  deriving DecidableEq, Repr

def Opcode.loads : Opcode → Option Kind
  | .iload => some .int
  | .lload => some .long
  | .fload => some .float
  | .dload => some .double
  | .aload => some .ref
  | _ => none

def Opcode.stores : Opcode → Option Kind
  | .istore => some .int
  | .lstore => some .long
  | .fstore => some .float
  | .dstore => some .double
  | .astore => some .ref
  | _ => none

def Opcode.returns : Opcode → Option (Option Kind)
  | .ireturn => some (some .int)
  | .lreturn => some (some .long)
  | .freturn => some (some .float)
  | .dreturn => some (some .double)
  | .areturn => some (some .ref)
  | .return_ => some none
  | _ => none

def Opcode.receives (args : List Kind) : Opcode → Option (List Kind)
  | .invokestatic => some args
  | .invokevirtual => some (.ref :: args)
  | _ => none

variable {μ β : Type*}

structure Method (μ : Type*) where
  name : μ
  args : List Kind
  ret : Option Kind
  deriving DecidableEq, Repr

inductive Insn (μ : Type*)
  | var (op : Opcode) (i : ℕ)
  | plain (op : Opcode)
  | method (op : Opcode) (m : Method μ)
  deriving DecidableEq, Repr

structure Handler where
  start : ℕ
  stop : ℕ
  target : ℕ
  deriving DecidableEq, Repr

structure Code (μ : Type*) where
  insns : List (Insn μ)
  handlers : List Handler
  maxStack : ℕ
  maxLocals : ℕ
  ret : Option Kind
  deriving DecidableEq, Repr

structure Value (β : Type*) where
  kind : Kind
  data : β
  deriving DecidableEq, Repr

def width (vs : List (Value β)) : ℕ := (vs.map (·.kind.size)).sum

inductive Slot (β : Type*)
  | unset
  | holds (v : Value β)
  | upper

def Slot.isUpper : Slot β → Bool
  | .upper => true
  | _ => false

def Slot.beforeWrite : Slot β → Slot β
  | .holds v => if v.kind.size = 2 then .unset else .holds v
  | s => s

abbrev Locals (β : Type*) := ℕ → Slot β

variable (l : Locals β)

def Locals.load (k : Kind) (i : ℕ) : Option (Value β) :=
  match l i with
  | .holds v => if v.kind = k ∧ (k.size = 2 → (l (i + 1)).isUpper = true) then some v else none
  | _ => none

def Locals.store (i : ℕ) (v : Value β) : Locals β := fun j =>
  if j = i then .holds v
  else if j = i + 1 ∧ v.kind.size = 2 then .upper
  else if j + 1 = i then (l j).beforeWrite
  else l j

def Locals.Stored (l : Locals β) : ℕ → List (Value β) → Prop
  | _, [] => True
  | i, v :: vs => l.load v.kind i = some v ∧ l.Stored (i + v.kind.size) vs

/-- The variables a method starts with: its arguments from `i` on. -/
def Locals.entry : ℕ → List (Value β) → Locals β
  | _, [] => fun _ => .unset
  | i, v :: vs => (Locals.entry (i + v.kind.size) vs).store i v

theorem Kind.one_le_size (k : Kind) : 1 ≤ k.size := by
  cases k <;> decide

theorem Locals.load_store (i : ℕ) (v : Value β) : (l.store i v).load v.kind i = some v := by
  have hself : l.store i v i = .holds v := by simp [Locals.store]
  rw [Locals.load, hself]
  simp only [true_and]
  rw [if_pos]
  intro h2
  have hnext : l.store i v (i + 1) = .upper := by simp [Locals.store, h2]
  rw [hnext]
  rfl

theorem Locals.store_of_le {i j : ℕ} {v : Value β} (h : i + v.kind.size ≤ j) :
    l.store i v j = l j := by
  have h1 := v.kind.one_le_size
  simp only [Locals.store]
  rw [if_neg (by omega), if_neg (by omega), if_neg (by omega)]

theorem Locals.Stored.congr {l l' : Locals β} {i : ℕ} {vs : List (Value β)} (h : l.Stored i vs)
    (heq : ∀ j, i ≤ j → l j = l' j) : l'.Stored i vs := by
  induction vs generalizing i with
  | nil => trivial
  | cons v vs ih =>
    refine ⟨?_, ih h.2 fun j hj => heq j (by omega)⟩
    rw [← h.1, Locals.load, Locals.load, heq i le_rfl, heq (i + 1) (Nat.le_succ i)]

theorem Locals.stored_entry (i : ℕ) (vs : List (Value β)) : (Locals.entry i vs).Stored i vs := by
  induction vs generalizing i with
  | nil => trivial
  | cons v vs ih =>
    refine ⟨Locals.load_store _ i v, (ih (i + v.kind.size)).congr fun j hj => ?_⟩
    exact (Locals.store_of_le _ hj).symm

structure Call (μ β : Type*) where
  method : μ
  args : List (Value β)
  deriving DecidableEq, Repr

inductive Outcome (β : Type*)
  | returned (v : Option (Value β))
  | threw (e : β)
  deriving DecidableEq, Repr

structure Frame (μ β : Type*) where
  pc : ℕ := 0
  locals : Locals β
  stack : List (Value β) := []
  calls : List (Call μ β) := []

/-- How the execution of a method ends, with the calls it has made. -/
inductive Exit (μ β : Type*)
  | ended (outcome : Outcome β) (calls : List (Call μ β))
  | bad
  deriving DecidableEq, Repr

abbrev Env (μ β : Type*) := List (Call μ β) → μ → List (Value β) → Outcome β

def push (code : Code μ) (f : Frame μ β) (v : Value β) : Pass (Frame μ β) (Exit μ β) :=
  if width (v :: f.stack) ≤ code.maxStack then
    .again { f with pc := f.pc + 1, stack := v :: f.stack }
  else .leave .bad

def raise (code : Code μ) (f : Frame μ β) (e : β) : Pass (Frame μ β) (Exit μ β) :=
  match code.handlers.find? fun h => h.start ≤ f.pc ∧ f.pc < h.stop with
  | none => .leave (.ended (.threw e) f.calls)
  | some h =>
    if 1 ≤ code.maxStack then .again { f with pc := h.target, stack := [⟨.ref, e⟩] }
    else .leave .bad

def invoke (env : Env μ β) (code : Code μ) (f : Frame μ β) (m : Method μ) (kinds : List Kind) :
    Pass (Frame μ β) (Exit μ β) :=
  let vs := (f.stack.take kinds.length).reverse
  if vs.map Value.kind = kinds then
    let f' := { f with stack := f.stack.drop kinds.length, calls := f.calls ++ [⟨m.name, vs⟩] }
    match env f.calls m.name vs with
    | .threw e => raise code f' e
    | .returned none => if m.ret = none then .again { f' with pc := f.pc + 1 } else .leave .bad
    | .returned (some v) => if m.ret = some v.kind then push code f' v else .leave .bad
  else .leave .bad

def step (env : Env μ β) (code : Code μ) (f : Frame μ β) : Pass (Frame μ β) (Exit μ β) :=
  match code.insns[f.pc]? with
  | none => .leave .bad
  | some (.var op i) =>
    match op.loads, op.stores, f.stack with
    | some k, _, _ =>
      match f.locals.load k i with
      | some v => if i + k.size ≤ code.maxLocals then push code f v else .leave .bad
      | none => .leave .bad
    | none, some k, v :: stack =>
      if v.kind = k ∧ i + k.size ≤ code.maxLocals then
        .again { f with pc := f.pc + 1, locals := f.locals.store i v, stack := stack }
      else .leave .bad
    | none, _, _ => .leave .bad
  | some (.plain op) =>
    match op.returns, f.stack with
    | some none, _ =>
      if code.ret = none then .leave (.ended (.returned none) f.calls) else .leave .bad
    | some (some k), v :: _ =>
      if v.kind = k ∧ code.ret = some k then .leave (.ended (.returned (some v)) f.calls)
      else .leave .bad
    | none, v :: _ =>
      if op = .athrow ∧ v.kind = .ref then raise code f v.data else .leave .bad
    | _, [] => .leave .bad
  | some (.method op m) =>
    match op.receives m.args with
    | some kinds => invoke env code f m kinds
    | none => .leave .bad

section

variable {env : Env μ β} {code : Code μ} {f : Frame μ β} {v : Value β} {i : ℕ} {op : Opcode}
  {m : Method μ}

theorem step_load (h : code.insns[f.pc]? = some (.var op i)) (hop : op.loads = some v.kind)
    (hload : f.locals.load v.kind i = some v) (hlocals : i + v.kind.size ≤ code.maxLocals)
    (hstack : width (v :: f.stack) ≤ code.maxStack) :
    step env code f = .again { f with pc := f.pc + 1, stack := v :: f.stack } := by
  simp only [step, h, hop, hload, if_pos hlocals, push, if_pos hstack]

theorem step_store {stack : List (Value β)} (h : code.insns[f.pc]? = some (.var op i))
    (hload : op.loads = none) (hop : op.stores = some v.kind)
    (hlocals : i + v.kind.size ≤ code.maxLocals) (hf : f.stack = v :: stack) :
    step env code f =
      .again { f with pc := f.pc + 1, locals := f.locals.store i v, stack := stack } := by
  simp only [step, h, hload, hop, hf, true_and, if_pos hlocals]

theorem step_return (h : code.insns[f.pc]? = some (.plain op)) {stack : List (Value β)}
    (hop : op.returns = some (some v.kind)) (hret : code.ret = some v.kind)
    (hf : f.stack = v :: stack) :
    step env code f = .leave (.ended (.returned (some v)) f.calls) := by
  simp only [step, h, hop, hf, hret, and_self, if_true]

theorem step_returnVoid (h : code.insns[f.pc]? = some (.plain op)) (hop : op.returns = some none)
    (hret : code.ret = none) : step env code f = .leave (.ended (.returned none) f.calls) := by
  simp only [step, h, hop, hret, if_true]

theorem step_athrow (h : code.insns[f.pc]? = some (.plain .athrow)) {e : β}
    {stack : List (Value β)} (hf : f.stack = ⟨.ref, e⟩ :: stack)
    (hnone : ∀ x ∈ code.handlers, ¬ (x.start ≤ f.pc ∧ f.pc < x.stop)) :
    step env code f = .leave (.ended (.threw e) f.calls) := by
  have hfind : code.handlers.find? (fun x => x.start ≤ f.pc ∧ f.pc < x.stop) = none := by
    rw [List.find?_eq_none]
    intro x hx
    simpa using hnone x hx
  simp only [step, h, hf, Opcode.returns, and_self, if_true, raise, hfind]

variable (vs : List (Value β)) {stack : List (Value β)}

theorem step_method (h : code.insns[f.pc]? = some (.method op m))
    (hop : op.receives m.args = some (vs.map Value.kind)) (hf : f.stack = vs.reverse ++ stack) :
    step env code f =
      match env f.calls m.name vs with
      | .threw e => raise code { f with stack := stack, calls := f.calls ++ [⟨m.name, vs⟩] } e
      | .returned none =>
        if m.ret = none then
          .again { f with pc := f.pc + 1, stack := stack, calls := f.calls ++ [⟨m.name, vs⟩] }
        else .leave .bad
      | .returned (some v) =>
        if m.ret = some v.kind then
          push code { f with stack := stack, calls := f.calls ++ [⟨m.name, vs⟩] } v
        else .leave .bad := by
  have hlen : (vs.map Value.kind).length = vs.reverse.length := by simp
  simp only [step, h, hop, invoke, hf, hlen, List.take_left, List.drop_left, List.reverse_reverse,
    if_true]

theorem step_call_void (h : code.insns[f.pc]? = some (.method op m))
    (hop : op.receives m.args = some (vs.map Value.kind)) (hf : f.stack = vs.reverse ++ stack)
    (hret : m.ret = none) (henv : env f.calls m.name vs = .returned none) :
    step env code f =
      .again { f with pc := f.pc + 1, stack := stack, calls := f.calls ++ [⟨m.name, vs⟩] } := by
  rw [step_method vs h hop hf, henv]
  exact if_pos hret

theorem step_call_value (h : code.insns[f.pc]? = some (.method op m))
    (hop : op.receives m.args = some (vs.map Value.kind)) (hf : f.stack = vs.reverse ++ stack)
    (hret : m.ret = some v.kind) (henv : env f.calls m.name vs = .returned (some v))
    (hstack : width (v :: stack) ≤ code.maxStack) :
    step env code f = .again { f with
      pc := f.pc + 1, stack := v :: stack, calls := f.calls ++ [⟨m.name, vs⟩] } := by
  rw [step_method vs h hop hf, henv]
  simp only [hret, if_true, push, if_pos hstack]

theorem step_call_threw (h : code.insns[f.pc]? = some (.method op m))
    (hop : op.receives m.args = some (vs.map Value.kind)) (hf : f.stack = vs.reverse ++ stack)
    {e : β} (henv : env f.calls m.name vs = .threw e) {x : Handler} {rest : List Handler}
    (hhandlers : code.handlers = x :: rest) (hx : x.start ≤ f.pc ∧ f.pc < x.stop)
    (hstack : 1 ≤ code.maxStack) :
    step env code f = .again { f with
      pc := x.target, stack := [⟨.ref, e⟩], calls := f.calls ++ [⟨m.name, vs⟩] } := by
  rw [step_method vs h hop hf, henv]
  simp only [raise, hhandlers, List.find?_cons, hx, and_self, decide_true, if_pos hstack]

end

def Kind.loadOp : Kind → Opcode
  | .int => .iload
  | .long => .lload
  | .float => .fload
  | .double => .dload
  | .ref => .aload

@[simp] theorem Kind.loads_loadOp (k : Kind) : k.loadOp.loads = some k := by
  cases k <;> rfl

def loadFrom : ℕ → List Kind → List (Insn μ)
  | _, [] => []
  | i, k :: ks => .var k.loadOp i :: loadFrom (i + k.size) ks

theorem length_loadFrom (i : ℕ) (ks : List Kind) :
    (loadFrom i ks : List (Insn μ)).length = ks.length := by
  induction ks generalizing i with
  | nil => rfl
  | cons k ks ih => rw [loadFrom, List.length_cons, List.length_cons, ih]

@[simp] theorem width_cons (v : Value β) (vs : List (Value β)) :
    width (v :: vs) = v.kind.size + width vs := by
  simp [width]

theorem visits_loadFrom {env : Env μ β} {code : Code μ} {vs : List (Value β)} {i : ℕ}
    {f : Frame μ β} (h : OccursAt (loadFrom i (vs.map Value.kind)) code.insns f.pc)
    (hstored : f.locals.Stored i vs) (hlocals : i + width vs ≤ code.maxLocals)
    (hstack : width vs + width f.stack ≤ code.maxStack) :
    Visits (step env code) f
      { f with pc := f.pc + vs.length, stack := vs.reverse ++ f.stack } := by
  induction vs generalizing i f with
  | nil => exact .refl
  | cons v vs ih =>
    rw [width_cons] at hlocals hstack
    obtain ⟨hinsn, hrest⟩ := h.cons
    have hstep : step env code f = .again { f with pc := f.pc + 1, stack := v :: f.stack } :=
      step_load hinsn v.kind.loads_loadOp hstored.1 (by omega) (by rw [width_cons]; omega)
    have hvisits := ih (f := { f with pc := f.pc + 1, stack := v :: f.stack }) hrest hstored.2
      (by omega) (by rw [width_cons]; omega)
    refine .again hstep ?_
    have hpc : f.pc + 1 + vs.length = f.pc + (v :: vs).length := by
      rw [List.length_cons]
      omega
    have hstk : vs.reverse ++ v :: f.stack = (v :: vs).reverse ++ f.stack := by simp
    rw [hpc, hstk] at hvisits
    exact hvisits

end RPerf.Lib.Jvm
