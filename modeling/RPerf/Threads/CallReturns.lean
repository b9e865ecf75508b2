import RPerf.Threads.ThreadStack

/-!
# Every call is reported once

With a callback that never fails the log of a thread plays on its stack: what is open in the
log is what is on the stack, with the branches counted since it was pushed.
-/

namespace RPerf.Threads

open Lib

/-- The report `r` of the entry `e` to the processor `p`, `n` branches after it was pushed. -/
structure Reports (p : ℕ) (timed : Prop) (e : Entry) (n : ℕ) (r : ℕ × CallReturn) : Prop where
  processor : r.1 = p
  cp : r.2.cp = e.cp
  callTime : r.2.callTime = e.timestamp
  callRef : r.2.callRef = e.ref
  noCall : r.2.noCall = e.noCall
  branchCount : r.2.branchCount = UInt64.ofNat n
  ordered : timed → r.2.callTime ≤ r.2.returnTime

/-- What a call of `thread_stack__process` logs: one tick, the bottom entry before it. -/
structure CallLog where
  flushed : List (ℕ × CallReturn)
  bottom : Option Entry
  branch : Log
  tick_notMem : LifoEvent.tick ∉ branch

def CallLog.before (l : CallLog) : Log := l.flushed.map .report

def CallLog.log (l : CallLog) : Log :=
  l.before ++ (l.bottom.map .push).toList ++ .tick :: l.branch

/-- The call finds `opens` open, and pushes a bottom entry exactly if that is nothing. -/
structure Bottoms (c : Call) (l : CallLog) (opens : Opens Entry) : Prop where
  isSome_iff : l.bottom.isSome ↔ opens = [] ∧ (c.sample.ip ≠ 0 ∨ c.sample.addr ≠ 0)
  entry : ∀ e ∈ l.bottom, e.timestamp = c.sample.time ∧ e.ref = c.ref

/-- Each call has counted one branch. -/
inductive Logged (ok : Entry → ℕ → ℕ × CallReturn → Prop) : List Call → Log → Prop
  | nil : Logged ok [] []
  | call {calls : List Call} {log : Log} {opens : Opens Entry} (c : Call) (l : CallLog) :
    Logged ok calls log → Plays ok [] (log ++ l.before) opens → Bottoms c l opens →
    Logged ok (calls ++ [c]) (log ++ l.log)

/-- The stack is what is open in the log. -/
structure Inv (p : ℕ) (timed : Prop) (base : Log) (last time : UInt64) (s : State) : Prop where
  crp : s.ts.crp = some p
  lastTime : s.ts.lastTime = last
  opens : ∃ opens, Plays (Reports p timed) [] s.log opens ∧ opens.map Prod.fst = s.ts.stack ∧
    ∀ o ∈ opens, s.ts.branchCount = o.1.branchCount + UInt64.ofNat o.2
  times : timed → ∀ e ∈ s.ts.stack, e.timestamp ≤ time
  quiet : ∃ l, s.log = base ++ l ∧ LifoEvent.tick ∉ l

namespace Inv

variable {env : Env} {p : ℕ} {timed : Prop} {base : Log} {last time : UInt64} {s : State}

theorem mono {time' : UInt64} (h : Inv p timed base last time s) (hle : timed → time ≤ time') :
    Inv p timed base last time' s :=
  { h with times := fun ht e he => UInt64.le_trans (h.times ht e he) (hle ht) }

variable {timestamp ref : UInt64} {c : Call} {e : Entry}

theorem callReturn (h : Inv p timed base last time s) {stack : List Entry}
    (hs : s.ts.stack = e :: stack) (htime : timed → time ≤ timestamp) (ref : UInt64)
    (noReturn : Bool) :
    Inv p timed base last time (s.callReturn env e stack timestamp ref noReturn).2 := by
  obtain ⟨opens, hplays, hmap, hcount⟩ := h.opens
  obtain ⟨l, hl, htick⟩ := h.quiet
  rw [hs] at hmap
  obtain ⟨⟨e', n⟩, rest, rfl, rfl, hrest⟩ := List.map_eq_cons_iff.mp hmap
  have hn : s.ts.branchCount = e'.branchCount + UInt64.ofNat n := hcount (e', n) List.mem_cons_self
  have htimes : timed → ∀ x ∈ e' :: stack, x.timestamp ≤ time := hs ▸ h.times
  refine ⟨h.crp, h.lastTime, ⟨rest, hplays.reported ?_, hrest, fun o ho =>
    hcount o (List.mem_cons_of_mem _ ho)⟩, fun ht x hx => htimes ht x (List.mem_cons_of_mem _ hx),
    l ++ [.report _], by rw [← List.append_assoc, ← hl]; rfl, by simpa using htick⟩
  refine ⟨?_, rfl, rfl, rfl, rfl, ?_, fun ht => ?_⟩
  · simp [h.crp]
  · change s.ts.branchCount - e'.branchCount = UInt64.ofNat n
    rw [hn, UInt64.add_comm, UInt64.add_sub_cancel]
  · exact UInt64.le_trans (htimes ht e' List.mem_cons_self) (htime ht)

theorem callReturn_stack {stack : List Entry} {noReturn : Bool} {err : Int} {s' : State}
    (h : s.callReturn env e stack timestamp ref noReturn = (err, s')) : s'.ts.stack = stack := by
  obtain ⟨-, rfl⟩ := Prod.mk.inj h
  rfl

theorem push (h : Inv p timed base last time s) (hcount : e.branchCount = s.ts.branchCount)
    (htime : timed → e.timestamp ≤ time) :
    Inv p timed base last time
      { s with log := s.log ++ [.push e], ts.stack := e :: s.ts.stack } := by
  obtain ⟨opens, hplays, hmap, hopens⟩ := h.opens
  obtain ⟨l, hl, htick⟩ := h.quiet
  refine ⟨h.crp, h.lastTime, ⟨(e, 0) :: opens, hplays.pushed e, ?_, ?_⟩, fun ht => ?_,
    l ++ [.push e], by rw [← List.append_assoc, ← hl], by simpa using htick⟩
  · rw [List.map_cons, hmap]
  · refine List.forall_mem_cons.mpr ⟨?_, hopens⟩
    simp [hcount]
  · exact List.forall_mem_cons.mpr ⟨htime ht, h.times ht⟩

theorem count (h : Inv p timed base last time s) (now : UInt64) :
    Inv p timed (s.log ++ [.tick]) now time (s.count now) := by
  obtain ⟨opens, hplays, hmap, hopens⟩ := h.opens
  refine ⟨h.crp, rfl, ⟨opens.tick, hplays.ticked, ?_, fun o ho => ?_⟩, h.times,
    [], (List.append_nil _).symm, List.not_mem_nil⟩
  · rw [Opens.tick, List.map_map]
    exact hmap
  · obtain ⟨o', ho', rfl⟩ := List.mem_map.mp ho
    change s.ts.branchCount + 1 = o'.1.branchCount + UInt64.ofNat (o'.2 + 1)
    rw [hopens o' ho', UInt64.ofNat_add, UInt64.add_assoc]
    rfl

theorem of_eq {s' : State} (h : Inv p timed base last time s) (hlog : s'.log = s.log)
    (hcrp : s'.ts.crp = s.ts.crp) (hlast : s'.ts.lastTime = s.ts.lastTime)
    (hstack : s'.ts.stack = s.ts.stack) (hcount : s'.ts.branchCount = s.ts.branchCount) :
    Inv p timed base last time s' := by
  obtain ⟨hcrp', hlast', hopens, htimes, hquiet⟩ := h
  exact ⟨hcrp.trans hcrp', hlast.trans hlast', by rw [hlog, hstack, hcount]; exact hopens,
    by rw [hstack]; exact htimes, by rw [hlog]; exact hquiet⟩

theorem grow (h : Inv p timed base last time s) : Inv p timed base last time (s.grow env).2 := by
  unfold State.grow
  split_ifs
  · exact h.of_eq rfl rfl rfl rfl rfl
  · exact h.of_eq rfl rfl rfl rfl rfl
  · exact h

theorem pushCp (h : Inv p timed base last time s) (htime : timed → timestamp ≤ time)
    (retAddr ref : UInt64) (cp : CallPath) (noCall : Bool) :
    Inv p timed base last time (s.pushCp env retAddr timestamp ref cp noCall).2 := by
  have hgrow : Inv p timed base last time (s.grow env).2 := h.grow
  unfold State.pushCp
  split
  next s' hs' =>
    rw [hs'] at hgrow
    exact hgrow.push rfl htime
  next err s' _ hs' =>
    rw [hs'] at hgrow
    exact hgrow

theorem pushNew (h : Inv p timed base last time s) (htime : timed → timestamp ≤ time)
    (parent : CallPath) (sym : Option ℕ) (ip retAddr ref : UInt64) (noCall : Bool) :
    Inv p timed base last time (s.pushNew env parent sym ip retAddr timestamp ref noCall).2 := by
  unfold State.pushNew
  split
  next => exact h
  next cp s' hs' =>
    unfold State.findnew at hs'
    dsimp only at hs'
    split at hs'
    · cases hs'
      apply pushCp _ htime
      exact h.of_eq rfl rfl rfl rfl rfl
    · cases hs'

theorem bottom (h : Inv p timed base last time s) (htime : timed → c.sample.time ≤ time) :
    Inv p timed base last time (s.bottom env c).2 := by
  unfold State.bottom
  dsimp only
  split_ifs
  · exact h.pushNew htime _ _ _ _ _ _
  · exact h.pushNew htime _ _ _ _ _ _
  · exact h

theorem traceEnd (h : Inv p timed base last time s) {sample : Sample}
    (htime : timed → sample.time ≤ time) (ref : UInt64) :
    Inv p timed base last time (s.traceEnd env sample ref).2 := by
  unfold State.traceEnd
  split
  · exact h
  · split_ifs
    · exact h
    · exact h.pushNew htime _ _ _ _ _ _

theorem unwind {retAddr : UInt64} (htime : timed → time ≤ timestamp) :
    ∀ {stack : List Entry} {s : State}, s.ts.stack = stack → Inv p timed base last time s →
      Inv p timed base last time (State.unwind env retAddr timestamp ref stack s).2
  | [], s, _, h => h
  | e :: stack, s, hs, h => by
    unfold State.unwind
    have hskip : Inv p timed base last time (s.callReturn env e stack timestamp ref true).2 :=
      h.callReturn hs htime ref true
    split_ifs
    · exact h.callReturn hs htime ref false
    · split
      next s' hs' =>
        rw [hs'] at hskip
        exact unwind htime (callReturn_stack hs') hskip
      next => exact hskip

theorem popCp (h : Inv p timed base last time s) (htime : timed → time ≤ timestamp)
    (retAddr ref : UInt64) (sym : Option ℕ) :
    Inv p timed base last time (s.popCp env retAddr timestamp ref sym).2 := by
  unfold State.popCp
  split
  next => exact h
  next e stack hs =>
    split_ifs
    · exact h.callReturn hs htime ref false
    · exact h.callReturn hs htime ref false
    · exact unwind htime hs h
    · exact h

theorem leaveKernel (htime : timed → time ≤ timestamp) :
    ∀ {stack : List Entry} {s : State}, s.ts.stack = stack → Inv p timed base last time s →
      Inv p timed base last time (State.leaveKernel env timestamp ref stack s).2
  | [], s, _, h => h
  | e :: stack, s, hs, h => by
    unfold State.leaveKernel
    have hskip : Inv p timed base last time (s.callReturn env e stack timestamp ref true).2 :=
      h.callReturn hs htime ref true
    split_ifs
    · split
      next s' hs' =>
        rw [hs'] at hskip
        exact leaveKernel htime (callReturn_stack hs') hskip
      next => exact hskip
    · exact h

theorem traceBegin (h : Inv p timed base last time s) (htime : timed → time ≤ timestamp)
    (ref : UInt64) : Inv p timed base last time (s.traceBegin env timestamp ref).2 := by
  unfold State.traceBegin
  split
  next => exact h
  next e stack hs =>
    split_ifs
    · exact h.callReturn hs htime ref false
    · exact h

theorem bind {r : Int × State} {f : State → Int × State} (h : Inv p timed base last time r.2)
    (hf : ∀ {s}, Inv p timed base last time s → Inv p timed base last time (f s).2) :
    Inv p timed base last time (match r with | (0, s) => f s | r => r).2 := by
  split
  · exact hf h
  · exact h

theorem pushPop (h : Inv p timed base last c.sample.time s) :
    Inv p timed base last c.sample.time (s.pushPop env c).2 :=
  bind (h.pushNew (fun _ => UInt64.le_refl _) _ _ _ _ _ _) fun h =>
    h.popCp (fun _ => UInt64.le_refl _) _ _ _

theorem noCallReturn (h : Inv p timed base last c.sample.time s) :
    Inv p timed base last c.sample.time (s.noCallReturn env c).2 := by
  have hleave : Inv p timed base last c.sample.time
      (State.leaveKernel env c.sample.time c.ref s.ts.stack s).2 :=
    leaveKernel (fun _ => UInt64.le_refl _) rfl h
  unfold State.noCallReturn
  dsimp only
  split_ifs
  · refine bind hleave fun h => ?_
    split_ifs
    · exact h.pushNew (fun _ => UInt64.le_refl _) _ _ _ _ _ _
    · exact h.pushPop
  · exact bind hleave pushPop
  · exact h.pushPop

theorem flushLoop (hprocess : ∀ log, env.process log = 0) (htime : timed → time ≤ last) :
    ∀ {stack : List Entry} {s : State}, s.ts.stack = stack → Inv p timed base last time s →
      (State.flushLoop env stack s).1 = 0 ∧
        Inv p timed base last time (State.flushLoop env stack s).2 ∧
        (State.flushLoop env stack s).2.ts.stack = []
  | [], s, hs, h => ⟨rfl, h, hs⟩
  | e :: stack, s, hs, h => by
    have hnext : Inv p timed base last time (s.callReturn env e stack s.ts.lastTime 0 true).2 :=
      h.callReturn hs (h.lastTime ▸ htime) 0 true
    have hzero : s.callReturn env e stack s.ts.lastTime 0 true =
        (0, (s.callReturn env e stack s.ts.lastTime 0 true).2) :=
      Prod.ext (hprocess _) rfl
    rw [State.flushLoop, hzero]
    exact flushLoop hprocess htime rfl hnext

theorem flush (hprocess : ∀ log, env.process log = 0) (htime : timed → time ≤ last)
    (h : Inv p timed base last time s) :
    (s.flush env).1 = 0 ∧ Inv p timed base last time (s.flush env).2 ∧
      (s.flush env).2.ts.stack = [] := by
  have hcrp : s.ts.crp.isNone = false := by rw [h.crp]; rfl
  rw [State.flush, hcrp, if_neg Bool.false_ne_true]
  exact flushLoop hprocess htime rfl h

theorem branch (h : Inv p timed base last c.sample.time s)
    (hbottom : c.sample.ip ≠ 0 → s.ts.stack ≠ []) :
    ∃ r, s.branch env c = some r ∧ Inv p timed base last c.sample.time r.2 := by
  have hle : timed → c.sample.time ≤ c.sample.time := fun _ => UInt64.le_refl _
  have hpop : Inv p timed base last c.sample.time
      (s.popCp env c.sample.addr c.sample.time c.ref c.fromSym).2 := h.popCp hle _ _ _
  unfold State.branch
  dsimp only
  split_ifs with _ hends
  · exact ⟨_, rfl, h⟩
  · exact ⟨_, rfl, h⟩
  · obtain ⟨e, stack, hs⟩ := List.exists_cons_of_ne_nil (hbottom fun hip => hends (.inl hip))
    rw [hs]
    exact ⟨_, rfl, h.pushNew hle _ _ _ _ _ _⟩
  · exact ⟨_, rfl, h⟩
  · split
    next s' hs' =>
      rw [hs'] at hpop
      exact ⟨_, rfl, hpop⟩
    next err s' _ hs' =>
      rw [hs'] at hpop
      split_ifs
      · exact ⟨_, rfl, hpop⟩
      · exact ⟨_, rfl, hpop.noCallReturn⟩
  · exact ⟨_, rfl, h.traceBegin hle _⟩
  · exact ⟨_, rfl, h.traceEnd hle _⟩
  · exact ⟨_, rfl, h⟩

theorem findnew_ok (hmem : ∀ n, env.malloc n = true) (parent : CallPath) (sym : Option ℕ)
    (ip : UInt64) : ∃ cp s', s.findnew env parent sym ip = some (cp, s') ∧ s'.log = s.log := by
  have hpath (cpr : CallPathRoot) :
      ∃ cp cpr', cpr.findnew parent sym ip s.ts.kernelStart true = some (cp, cpr') := by
    unfold CallPathRoot.findnew CallPathRoot.new
    dsimp only
    split
    · exact ⟨_, _, rfl⟩
    · by_cases hroom : cpr.nodes.length < cpr.sz
      · exact ⟨_, _, if_pos hroom⟩
      · exact ⟨_, _, (if_neg hroom).trans (if_pos rfl)⟩
  obtain ⟨cp, cpr', hcp⟩ := hpath (s.cprs (s.ts.crp.getD 0))
  rw [State.findnew, hmem, hcp]
  exact ⟨_, _, rfl, rfl⟩

theorem grow_ok (hmem : ∀ n, env.malloc n = true) (s : State) :
    (s.grow env).1 = 0 ∧ (s.grow env).2.log = s.log := by
  unfold State.grow
  rw [hmem, if_pos rfl]
  split_ifs <;> exact ⟨rfl, rfl⟩

theorem pushNew_ok (hmem : ∀ n, env.malloc n = true) (parent : CallPath) (sym : Option ℕ)
    (ip retAddr timestamp ref : UInt64) (noCall : Bool) :
    ∃ e s', s.pushNew env parent sym ip retAddr timestamp ref noCall = (0, s') ∧
      s'.ts.stack ≠ [] ∧ s'.log = s.log ++ [.push e] ∧ e.timestamp = timestamp ∧ e.ref = ref := by
  obtain ⟨cp, s', hcp, hlog⟩ := findnew_ok (s := s) hmem parent sym ip
  obtain ⟨hzero, hgrown⟩ := grow_ok hmem s'
  have hgrow : s'.grow env = (0, (s'.grow env).2) := Prod.ext hzero rfl
  rw [State.pushNew, hcp]
  dsimp only
  rw [State.pushCp, hgrow]
  exact ⟨_, _, rfl, List.cons_ne_nil _ _, by rw [← hlog, ← hgrown], rfl, rfl⟩

theorem bottom_ok (hmem : ∀ n, env.malloc n = true) (c : Call) :
    ∃ (s' : State) (pushed : Option Entry), s.bottom env c = (0, s') ∧
      (c.sample.ip ≠ 0 → s'.ts.stack ≠ []) ∧ s'.log = s.log ++ (pushed.map .push).toList ∧
      (pushed.isSome ↔ c.sample.ip ≠ 0 ∨ c.sample.addr ≠ 0) ∧
      ∀ e ∈ pushed, e.timestamp = c.sample.time ∧ e.ref = c.ref := by
  have hpush (sym : Option ℕ) (ip : UInt64) := pushNew_ok (s := s) hmem CallPathRoot.callPath sym
    ip ip c.sample.time c.ref true
  unfold State.bottom
  dsimp only
  split_ifs with hip haddr
  · obtain ⟨e, s', hs', hne, hlog, he⟩ := hpush c.fromSym c.sample.ip
    exact ⟨s', some e, hs', fun _ => hne, hlog, by simp [hip], by simpa using he⟩
  · obtain ⟨e, s', hs', hne, hlog, he⟩ := hpush c.toSym c.sample.addr
    exact ⟨s', some e, hs', fun _ => hne, hlog, by simp [haddr], by simpa using he⟩
  · exact ⟨s, none, rfl, fun h => absurd h hip, (List.append_nil _).symm, by simp_all, by simp⟩

theorem exec (hprocess : ∀ log, env.process log = 0) (h : Inv p timed base time time s)
    (comm : Option ℕ) : (s.exec env comm).1 = 0 ∧ Inv p timed base time time
      (s.exec env comm).2 := by
  unfold State.exec
  split_ifs
  · obtain ⟨hzero, hflush, -⟩ := h.flush hprocess fun _ => UInt64.le_refl _
    rw [show s.flush env = (0, (s.flush env).2) from Prod.ext hzero rfl]
    exact ⟨rfl, hflush.of_eq rfl rfl rfl rfl rfl⟩
  · exact ⟨rfl, h⟩

theorem opens_nil (h : Inv p timed base last time s) (hempty : s.ts.stack = []) :
    Plays (Reports p timed) [] s.log [] := by
  obtain ⟨opens, hplays, hmap, -⟩ := h.opens
  rw [hempty, List.map_eq_nil_iff] at hmap
  exact hmap ▸ hplays

theorem flushLoop_log (env : Env) : ∀ (stack : List Entry) (s : State),
    ∃ flushed : List (ℕ × CallReturn),
      (State.flushLoop env stack s).2.log = s.log ++ flushed.map .report
  | [], s => ⟨[], (List.append_nil _).symm⟩
  | e :: stack, s => by
    obtain ⟨r, hr⟩ : ∃ r, (s.callReturn env e stack s.ts.lastTime 0 true).2.log =
        s.log ++ [.report r] := ⟨_, rfl⟩
    unfold State.flushLoop
    split
    next s' hs' =>
      rw [hs'] at hr
      obtain ⟨flushed, hlog⟩ := flushLoop_log env stack s'
      exact ⟨r :: flushed, by rw [hlog, hr, List.map_cons, List.append_assoc]; rfl⟩
    next err s' _ hs' =>
      rw [hs'] at hr
      exact ⟨[r], hr⟩

theorem flush_log (env : Env) (s : State) :
    ∃ flushed : List (ℕ × CallReturn), (s.flush env).2.log = s.log ++ flushed.map .report := by
  unfold State.flush
  split_ifs
  · exact ⟨[], (List.append_nil _).symm⟩
  · exact flushLoop_log env _ s

theorem exec_log (env : Env) (s : State) (comm : Option ℕ) :
    ∃ flushed : List (ℕ × CallReturn), (s.exec env comm).2.log = s.log ++ flushed.map .report := by
  obtain ⟨flushed, hlog⟩ := flush_log env s
  unfold State.exec
  split_ifs
  · split
    next s' hs' =>
      obtain ⟨-, rfl⟩ := Prod.mk.inj hs'
      exact ⟨flushed, hlog⟩
    next => exact ⟨flushed, hlog⟩
  · exact ⟨[], (List.append_nil _).symm⟩

theorem process (hmem : ∀ n, env.malloc n = true) (hprocess : ∀ log, env.process log = 0)
    (h : Inv p timed base time time s) (hle : timed → time ≤ c.sample.time) {calls : List Call}
    (hlogged : Logged (Reports p timed) calls s.log) :
    ∃ r base', s.process env c = some r ∧ Inv p timed base' c.sample.time c.sample.time r.2 ∧
      Logged (Reports p timed) (calls ++ [c]) r.2.log := by
  obtain ⟨hexec, h₁⟩ := h.exec hprocess c.comm
  obtain ⟨flushed, hflushed⟩ := exec_log env s c.comm
  obtain ⟨opens, hplays, hopens, -⟩ := h₁.opens
  have hnil : (s.exec env c.comm).2.ts.stack = [] ↔ opens = [] := by
    rw [← hopens, List.map_eq_nil_iff]
  obtain ⟨s₂, l, hbottom, hlog₂, hbefore, hl, h₂, hne⟩ : ∃ (s₂ : State) (l : CallLog),
      (if (s.exec env c.comm).2.ts.stack = [] then (s.exec env c.comm).2.bottom env c
        else (0, (s.exec env c.comm).2)) = (0, s₂) ∧
      s₂.log = s.log ++ l.before ++ (l.bottom.map .push).toList ∧
      l.before = flushed.map .report ∧ Bottoms c l opens ∧
      Inv p timed base time c.sample.time s₂ ∧ (c.sample.ip ≠ 0 → s₂.ts.stack ≠ []) := by
    split_ifs with hempty
    · obtain ⟨s₂, pushed, hs₂, hne, hlog, hsome, hpushed⟩ :=
        bottom_ok (s := (s.exec env c.comm).2) hmem c
      have h₂ : Inv p timed base time c.sample.time ((s.exec env c.comm).2.bottom env c).2 :=
        (h₁.mono hle).bottom fun _ => UInt64.le_refl _
      rw [hs₂] at h₂
      exact ⟨s₂, ⟨flushed, pushed, [], List.not_mem_nil⟩, hs₂, hflushed ▸ hlog, rfl,
        ⟨by rw [hsome, and_iff_right (hnil.mp hempty)], hpushed⟩, h₂, hne⟩
    · refine ⟨_, ⟨flushed, none, [], List.not_mem_nil⟩, rfl,
        hflushed.trans (List.append_nil _).symm, rfl, ⟨?_, by simp⟩, h₁.mono hle, fun _ => hempty⟩
      simpa using fun h => absurd (hnil.mpr h) hempty
  rw [State.process, show s.exec env c.comm = (0, (s.exec env c.comm).2) from Prod.ext hexec rfl]
  simp only [hbottom]
  obtain ⟨r, hr, hinv⟩ := (h₂.count c.sample.time).branch hne
  obtain ⟨branch, hlog, htick⟩ := hinv.quiet
  refine ⟨r, _, hr, hinv, ?_⟩
  have hcall : r.2.log = s.log ++ ({ l with branch, tick_notMem := htick } : CallLog).log := by
    rw [hlog, hlog₂]
    simp [CallLog.log, CallLog.before]
  have hopen : Plays (Reports p timed) [] (s.log ++ l.before) opens := by
    rwa [hbefore, ← hflushed]
  rw [hcall]
  exact hlogged.call c _ hopen ⟨hl.isSome_iff, hl.entry⟩

end Inv

namespace Thread

variable {env : Env} {p : ℕ} {timed : Prop}

def Tracks (p : ℕ) (timed : Prop) (time : UInt64) (calls : List Call) (t : Thread) : Prop :=
  ∃ (s : State) (base : Log), t = s.thread ∧ Inv p timed base time time s ∧
    Logged (Reports p timed) calls s.log

theorem Tracks.process (hmem : ∀ n, env.malloc n = true) (hprocess : ∀ log, env.process log = 0)
    {time : UInt64} {calls : List Call} {t : Thread} (h : Tracks p timed time calls t) {c : Call}
    (hle : timed → time ≤ c.sample.time) :
    ∃ r, t.process env c = some r ∧ Tracks p timed c.sample.time (calls ++ [c]) r.2 := by
  obtain ⟨s, base, rfl, hs, hlogged⟩ := h
  obtain ⟨r, base', hr, hinv, hlogged'⟩ := hs.process hmem hprocess hle hlogged
  refine ⟨(r.1, r.2.thread), ?_, r.2, base', rfl, hinv, hlogged'⟩
  simp [Thread.process, State.thread, hs.crp, hr]

/-- The first call makes a stack for its processor. -/
theorem process_first (hmem : ∀ n, env.malloc n = true) (hprocess : ∀ log, env.process log = 0)
    {t : Thread} (hcrp : t.ts.all (·.crp.isNone)) (hlog : t.log = []) (c : Call) :
    ∃ r, t.process env c = some r ∧ Tracks c.crp timed c.sample.time [c] r.2 := by
  obtain ⟨s, hnew, hs, hempty⟩ : ∃ s, process.created env t c = some s ∧
      Inv c.crp timed [] 0 0 s ∧ s.log = [] := by
    refine ⟨{ t.toShared with
      allocs := t.allocs + 2
      ts := { sz := stackGrowth, kernelStart := env.kernelStart.getD 0x8000000000000000,
              crp := some c.crp, comm := c.comm } }, ?_,
      ⟨rfl, rfl, ⟨[], ?_, rfl, List.forall_mem_nil _⟩, fun _ => List.forall_mem_nil _,
        [], hlog, List.not_mem_nil⟩, hlog⟩
    · simp [process.created, new, hmem]
    · rw [hlog]
      exact .nil
  obtain ⟨r, base, hr, hinv, hlogged⟩ :=
    hs.process hmem hprocess (c := c) (fun _ => UInt64.zero_le)
      (hempty ▸ Logged.nil)
  refine ⟨(r.1, r.2.thread), ?_, r.2, base, rfl, hinv, hlogged⟩
  cases hts : t.ts with
  | none => simp [Thread.process, hts, hnew, hr]
  | some ts =>
    have hnone : ts.crp.isSome = false := by simpa [hts] using hcrp
    simp [Thread.process, hts, hnone, hnew, hr]

theorem Tracks.run (hmem : ∀ n, env.malloc n = true) (hprocess : ∀ log, env.process log = 0) :
    ∀ {calls done : List Call} {time : UInt64} {t : Thread}, Tracks p timed time done t →
      (timed → (time :: calls.map (·.sample.time)).Pairwise (· ≤ ·)) →
      ∃ t' time', t.run env calls = some t' ∧ Tracks p timed time' (done ++ calls) t'
  | [], done, time, t, h, _ => ⟨t, time, rfl, by rwa [List.append_nil]⟩
  | c :: calls, done, time, t, h, htimes => by
    obtain ⟨r, hr, hr'⟩ := h.process hmem hprocess (c := c) fun ht =>
      (List.pairwise_cons.mp (htimes ht)).1 _ List.mem_cons_self
    obtain ⟨t', time', hrun, ht'⟩ := hr'.run hmem hprocess fun ht =>
      (List.pairwise_cons.mp (htimes ht)).2
    exact ⟨t', time', by rw [Thread.run, hr]; exact hrun, List.append_cons _ _ _ ▸ ht'⟩

theorem Tracks.flush (hprocess : ∀ log, env.process log = 0) {time : UInt64} {calls : List Call}
    {t : Thread} (h : Tracks p timed time calls t) :
    (t.flush env).1 = 0 ∧ (t.flush env).2.stack = [] ∧
      Plays (Reports p timed) [] (t.flush env).2.log [] ∧
      Logged (Reports p timed) calls t.log ∧
      ∃ flushed : List (ℕ × CallReturn), (t.flush env).2.log = t.log ++ flushed.map .report := by
  obtain ⟨s, base, rfl, hs, hlogged⟩ := h
  obtain ⟨hzero, hinv, hempty⟩ := hs.flush hprocess fun _ => UInt64.le_refl _
  exact ⟨hzero, hempty, hinv.opens_nil hempty, hlogged, Inv.flush_log env s⟩

/-- After any calls and a flush the log plays from nothing open to nothing open: each entry is
reported once, the last one first, with the number of branches counted since it was pushed. -/
theorem calls_reported_once (env : Env) (hmem : ∀ n, env.malloc n = true)
    (hprocess : ∀ log, env.process log = 0) (t : Thread) (hcrp : t.ts.all (·.crp.isNone))
    (hlog : t.log = []) (calls : List Call) :
    let ok := Reports ((calls.head?.map (·.crp)).getD 0)
      ((calls.map (·.sample.time)).Pairwise (· ≤ ·))
    ∃ t', t.run env calls = some t' ∧ (t'.flush env).1 = 0 ∧ (t'.flush env).2.stack = [] ∧
      Plays ok [] (t'.flush env).2.log [] ∧ Logged ok calls t'.log ∧
      ∃ flushed : List (ℕ × CallReturn), (t'.flush env).2.log = t'.log ++ flushed.map .report := by
  intro ok
  cases calls with
  | nil =>
    obtain ⟨hzero, hempty, hsame⟩ : (t.flush env).1 = 0 ∧ (t.flush env).2.stack = [] ∧
        (t.flush env).2.log = t.log := by
      cases hts : t.ts with
      | none => simp [Thread.flush, hts, Thread.stack]
      | some ts =>
        have hnone : ts.crp = none := by simpa [hts] using hcrp
        simp [Thread.flush, hts, Thread.stack, State.flush, hnone, State.thread]
    refine ⟨t, rfl, hzero, hempty, ?_, hlog ▸ .nil, [], hsame.trans (List.append_nil _).symm⟩
    rw [hsame, hlog]
    exact .nil
  | cons c calls =>
    obtain ⟨r, hr, hr'⟩ := process_first hmem hprocess hcrp hlog c
    obtain ⟨t', time', hrun, ht'⟩ := hr'.run hmem hprocess fun ht => ht
    exact ⟨t', by rw [Thread.run, hr]; exact hrun, ht'.flush hprocess⟩

/-- A call and a return that matches no call. -/
theorem calls_reported_once_unmatched :
    let env : Env := { malloc := fun _ => true, process := fun _ => 0 }
    let call : Call :=
      { comm := none, sample := { ip := 0x100, addr := 0x80, time := 7, flags := 3, insnLen := 5 } }
    let ret : Call :=
      { comm := none, sample := { ip := 0x90, addr := 0x300, time := 9, flags := 5 } }
    ∃ t', ({} : Thread).run env [call, ret] = some t' ∧ (t'.flush env).2.stack = [] ∧
      Plays (Reports 0 True) [] (t'.flush env).2.log [] ∧
      Logged (Reports 0 True) [call, ret] t'.log := by
  intro env call ret
  obtain ⟨t', hrun, -, hempty, hplays, hlogged, -⟩ :=
    calls_reported_once env (fun _ => rfl) (fun _ => rfl) {} rfl rfl [call, ret]
  have htimed : (([call, ret].map (·.sample.time)).Pairwise (· ≤ ·)) = True :=
    eq_true (by decide)
  rw [htimed] at hplays hlogged
  exact ⟨t', hrun, hempty, hplays, hlogged⟩

end Thread

end RPerf.Threads
