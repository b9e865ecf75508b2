import RPerf.Queues.Settled

/-!
# The order of a switch event and its branch

With `sync_switch` on, a context switch of a processor is seen twice: as a switch event, and
as a branch to `switch_ip` in the trace of the processor's queue.
-/

namespace RPerf.Queues

open Function Lib Decode

/-- A sample of a branch to `switch_ip`. -/
def SwitchConfig.isSwitch (cfg : SwitchConfig) (x : Delivered) : Bool :=
  x.sampled.state.type.branch && cfg.isSwitchIp x.sampled.state

/-- The switches among samples. -/
def SwitchConfig.switches (cfg : SwitchConfig) (xs : List Delivered) : ℕ := xs.countP cfg.isSwitch

def SwitchConfig.Plain (cfg : SwitchConfig) (state : State) : Prop :=
  state.type.branch = true →
    cfg.isSwitchIp state = true ∨ state.toIp ≠ 0 ∧ state.toIp ≠ cfg.switchIp

def SwitchConfig.Labelled (cfg : SwitchConfig) (t : ℕ → Int) (e : ℕ) : ℕ → List Delivered → Prop
  | _, [] => True
  | b, x :: xs => (x.tid = t b ∧ b ≤ e) ∧ cfg.Labelled t e (b + cfg.switches [x]) xs

section

variable {cfg : SwitchConfig} {t : ℕ → Int} {e e' b : ℕ} {xs ys : List Delivered}

theorem switches_append : cfg.switches (xs ++ ys) = cfg.switches xs + cfg.switches ys :=
  List.countP_append

theorem labelled_append : cfg.Labelled t e b (xs ++ ys) ↔
    cfg.Labelled t e b xs ∧ cfg.Labelled t e (b + cfg.switches xs) ys := by
  induction xs generalizing b with
  | nil => simp [SwitchConfig.Labelled, SwitchConfig.switches]
  | cons x xs ih =>
    rw [List.cons_append, SwitchConfig.Labelled, SwitchConfig.Labelled, ih,
      ← List.singleton_append (l := xs), switches_append, Nat.add_assoc]
    exact and_assoc.symm

theorem labelled_mono (hle : e ≤ e') (h : cfg.Labelled t e b xs) : cfg.Labelled t e' b xs := by
  induction xs generalizing b with
  | nil => trivial
  | cons x xs ih => exact ⟨⟨h.1.1, h.1.2.trans hle⟩, ih h.2⟩

theorem SwitchConfig.Labelled.tid {x : Delivered} (h : cfg.Labelled t e 0 (xs ++ x :: ys)) :
    x.tid = t (cfg.switches xs) ∧ cfg.switches xs ≤ e := by
  have hx := (labelled_append.mp h).2
  rw [Nat.zero_add] at hx
  exact hx.1

end

inductive Tracing (t : ℕ → Int) (current : Int) (q : SwitchPtq) : ℕ → ℕ → Prop
  | both {k} (hcurrent : current = t k) (hstate : q.switchState = .tracing)
    (hnext : q.nextTid = -1) : Tracing t current q k k
  | eventFirst {k} (hcurrent : current = t k) (hstate : q.switchState = .expectingSwitchIp)
    (hnext : q.nextTid = t (k + 1)) (htid : t (k + 1) ≠ -1) : Tracing t current q (k + 1) k

/-- The branch has come first. -/
structure Parked (t : ℕ → Int) (current : Int) (q : SwitchPtq) (e b : ℕ) : Prop where
  count : b = e + 1
  current : current = t e
  state : q.switchState = .expectingSwitchEvent
  nextTid : q.nextTid = -1

structure OnCpu (cfg : SwitchConfig) (cpu : Int) (queue : SwitchQueue) : Prop where
  sched : cfg.haveSchedSwitch ≠ 0
  queue : queue.cpu = cpu
  least : 0 ≤ cpu
  below : cpu < Machine.maxNrCpus

section

variable {cfg : SwitchConfig} {pt : Pt} {queue : SwitchQueue} {cpu : Int} {t : ℕ → Int} {e b : ℕ}

theorem setPidTidCpu_tid (h : OnCpu cfg cpu queue) (machine : Machine) {q : SwitchPtq}
    (hcpu : q.cpu = cpu) :
    (q.setPidTidCpu cfg machine queue).tid = machine.getCurrentTid cpu ∧
      (q.setPidTidCpu cfg machine queue).cpu = cpu := by
  have hne : queue.cpu ≠ -1 := by
    have := h.least
    rw [h.queue]
    omega
  unfold SwitchPtq.setPidTidCpu
  rw [if_pos (.inr h.sched)]
  dsimp only
  subst hcpu
  simp only [if_neg hne]
  split <;> split_ifs <;> exact ⟨rfl, rfl⟩

theorem getCurrentTid_set (h : OnCpu cfg cpu queue) (machine : Machine) (pid tid : Int) :
    (machine.setCurrentTid cpu pid tid).1 = 0 ∧
      (machine.setCurrentTid cpu pid tid).2.getCurrentTid cpu = tid := by
  have hout : ¬ (cpu < 0 ∨ Machine.maxNrCpus ≤ cpu) := by
    have := h.least
    have := h.below
    omega
  unfold Machine.setCurrentTid Machine.getCurrentTid
  rw [if_neg hout, if_neg hout]
  exact ⟨rfl, update_self ..⟩

/-- What a sample leaves. -/
structure SampleTurn (cfg : SwitchConfig) (cpu : Int) (t : ℕ → Int) (e b : ℕ) (r' : Running)
    (err : Int) (xs : List Delivered) : Prop where
  sync : r'.syncSwitch = true
  onCpu : r'.ptq.cpu = cpu
  taken : r'.ptq.haveSample = false
  labelled : cfg.Labelled t e b xs
  goes : err = 0 → Tracing t (r'.machine.getCurrentTid cpu) r'.ptq e (b + cfg.switches xs) ∧
    r'.ptq.tid = t (b + cfg.switches xs)
  parks : 0 < err → Parked t (r'.machine.getCurrentTid cpu) r'.ptq e (b + cfg.switches xs)

theorem Tracing.current {current : Int} {q : SwitchPtq} (h : Tracing t current q e b) :
    current = t b := by
  cases h <;> assumption

theorem Tracing.both_of_eq {current : Int} {q : SwitchPtq} (h : Tracing t current q e b)
    (heq : e = b) : q.switchState = .tracing ∧ q.nextTid = -1 := by
  cases h with
  | both _ hstate hnext => exact ⟨hstate, hnext⟩
  | eventFirst => omega

theorem Tracing.congr {current : Int} {q q' : SwitchPtq} (h : Tracing t current q e b)
    (hstate : q'.switchState = q.switchState) (hnext : q'.nextTid = q.nextTid) :
    Tracing t current q' e b := by
  cases h with
  | both h₁ h₂ h₃ => exact .both h₁ (hstate.trans h₂) (hnext.trans h₃)
  | eventFirst h₁ h₂ h₃ h₄ => exact .eventFirst h₁ (hstate.trans h₂) (hnext.trans h₃) h₄

theorem Tracing.le {current : Int} {q : SwitchPtq} (h : Tracing t current q e b) : b ≤ e := by
  cases h <;> omega

theorem switch_plain (queue : SwitchQueue) {r : Running} (hstate : r.ptq.switchState = .tracing ∨
      r.ptq.switchState = .expectingSwitchIp)
    (hip : cfg.isSwitchIp r.ptq.state ≠ true) (hto : r.ptq.state.toIp ≠ 0) :
    r.switch cfg queue = (0, r) := by
  unfold Running.switch
  dsimp only
  rw [if_neg hip, if_neg hto]
  rcases hstate with h | h <;> rw [h] <;> simp

theorem switch_switch (hcpu : OnCpu cfg cpu queue) {r : Running} (hq : r.ptq.cpu = cpu)
    (h : Tracing t (r.machine.getCurrentTid cpu) r.ptq e b)
    (hip : cfg.isSwitchIp r.ptq.state = true) :
    (r.switch cfg queue).2.ptq.cpu = cpu ∧
      ((r.switch cfg queue).1 = 0 →
        Tracing t ((r.switch cfg queue).2.machine.getCurrentTid cpu) (r.switch cfg queue).2.ptq e
          (b + 1) ∧ (r.switch cfg queue).2.ptq.tid = t (b + 1)) ∧
      (0 < (r.switch cfg queue).1 →
        Parked t ((r.switch cfg queue).2.machine.getCurrentTid cpu) (r.switch cfg queue).2.ptq e
          (b + 1)) := by
  unfold Running.switch
  dsimp only
  rw [if_pos hip]
  cases h with
  | both hcurrent hstate hnext =>
    rw [hstate]
    exact ⟨hq, fun h => absurd h one_ne_zero, fun _ => ⟨rfl, hcurrent, rfl, hnext⟩⟩
  | eventFirst hcurrent hstate hnext htid =>
    rw [hstate]
    dsimp only
    have hset := getCurrentTid_set hcpu r.machine (-1) r.ptq.nextTid
    have hnextTid : r.nextTid cfg queue =
        ((r.machine.setCurrentTid cpu (-1) r.ptq.nextTid).1, { r with
          machine := (r.machine.setCurrentTid cpu (-1) r.ptq.nextTid).2
          ptq := { r.ptq.setPidTidCpu cfg (r.machine.setCurrentTid cpu (-1) r.ptq.nextTid).2 queue
            with nextTid := -1 } }) := by
      rw [Running.nextTid, if_neg (by rw [hnext]; exact htid), hq]
    obtain ⟨htid', hcpu'⟩ := setPidTidCpu_tid hcpu
      (r.machine.setCurrentTid cpu (-1) r.ptq.nextTid).2 hq
    have hcurrent' := hset.2.trans hnext
    rw [hnextTid, if_neg (not_not.mpr hset.1)]
    exact ⟨hcpu', fun _ => ⟨.both hcurrent' rfl rfl, htid'.trans hcurrent'⟩,
      fun h => absurd h (lt_irrefl _)⟩

theorem Running.sample_turn (hdeliver : ∀ i n, cfg.deliver i n ≤ 0) (hcpu : OnCpu cfg cpu queue)
    {r r' : Running} {err : Int} {xs : List Delivered} (hsync : r.syncSwitch = true)
    (hq : r.ptq.cpu = cpu) (h : Tracing t (r.machine.getCurrentTid cpu) r.ptq e b)
    (htid : r.ptq.tid = t b) (hplain : r.ptq.haveSample = true → cfg.Plain r.ptq.state)
    (hs : r.sample cfg pt queue = (err, r', xs)) (herr : 0 ≤ err) :
    SampleTurn cfg cpu t e b r' err xs := by
  cases hsample : r.ptq.haveSample with
  | false =>
    simp only [Running.sample, Queues.sample, hsample, Bool.false_eq_true, if_false, ne_eq,
      not_true_eq_false, Bool.false_and] at hs
    cases hs
    exact ⟨hsync, hq, hsample, trivial, fun _ => ⟨h, htid⟩, fun h => absurd h (lt_irrefl _)⟩
  | true =>
    have hplain := hplain hsample
    have hfails := handOn_err (cfg.deliver r.ptq.queueNr) r.ptq.deliveries (pt.synths r.ptq.state)
    simp only [Running.sample, Queues.sample, hsample, if_true, Bool.true_and] at hs
    generalize handOn (cfg.deliver r.ptq.queueNr) r.ptq.deliveries (pt.synths r.ptq.state) = out
      at hs hfails
    obtain ⟨err₁, made⟩ := out
    dsimp only at hs hfails
    let q : Ptq := { r.ptq.toPtq with
      haveSample := false, deliveries := r.ptq.deliveries + made.length }
    let taken : Running := { r with ptq := { r.ptq with toPtq := q } }
    let x : Delivered := ⟨r.ptq.tid, ⟨r.ptq.state, r.ptq.timestamp, made⟩⟩
    have htracing : Tracing t (taken.machine.getCurrentTid cpu) taken.ptq e b := h.congr rfl rfl
    by_cases hzero : err₁ = 0
    · rw [if_neg (not_not.mpr hzero)] at hs
      have hlabelled : cfg.Labelled t e b [x] := ⟨⟨htid, h.le⟩, trivial⟩
      by_cases hbranch : r.ptq.state.type.branch = true
      · rw [if_pos (by rw [hbranch, hsync]; rfl)] at hs
        by_cases hip : cfg.isSwitchIp r.ptq.state = true
        · have hone : cfg.switches [x] = 1 := by
            simp [SwitchConfig.switches, SwitchConfig.isSwitch, x, hbranch, hip]
          obtain ⟨hcpu', hgoes, hparks⟩ := switch_switch hcpu (r := taken) hq htracing hip
          obtain ⟨hsync', hptq⟩ := switch_frame cfg queue taken
          obtain ⟨rfl, rfl, rfl⟩ := hs
          constructor
          case sync => exact hsync'.trans hsync
          case onCpu => exact hcpu'
          case taken => exact congrArg Ptq.haveSample hptq
          case labelled => exact hlabelled
          case goes => exact fun h => hone ▸ hgoes h
          case parks => exact fun h => hone ▸ hparks h
        · have hnone : cfg.switches [x] = 0 := by
            simp [SwitchConfig.switches, SwitchConfig.isSwitch, x, hip]
          have hto := (hplain hbranch).resolve_left hip
          have hstate : taken.ptq.switchState = .tracing ∨
              taken.ptq.switchState = .expectingSwitchIp := by
            cases htracing with
            | both _ hstate => exact .inl hstate
            | eventFirst _ hstate => exact .inr hstate
          have hswitch := switch_plain queue (r := taken) hstate hip hto.1
          rw [hswitch] at hs
          obtain ⟨rfl, rfl, rfl⟩ := hs
          exact ⟨hsync, hq, rfl, hlabelled, fun _ => ⟨hnone ▸ htracing, hnone ▸ htid⟩,
            fun h => absurd h (lt_irrefl _)⟩
      · have hnone : cfg.switches [x] = 0 := by
          simp [SwitchConfig.switches, SwitchConfig.isSwitch, x, hbranch]
        rw [if_neg (by simp [hbranch])] at hs
        obtain ⟨rfl, rfl, rfl⟩ := hs
        exact ⟨hsync, hq, rfl, hlabelled, fun _ => ⟨hnone ▸ htracing, hnone ▸ htid⟩,
          fun h => absurd h (lt_irrefl _)⟩
    · rw [if_pos hzero] at hs
      obtain ⟨n, hn⟩ := hfails hzero
      have hneg := hdeliver r.ptq.queueNr n
      have herr' := (Prod.mk.inj hs).1
      omega

structure Clean (cfg : SwitchConfig) (q : SwitchPtq) (outputs : List State) : Prop where
  waiting : q.haveSample = true → cfg.Plain q.state
  coming : ∀ state ∈ outputs, state.err = none ∧ cfg.Plain state

/-- What a turn leaves. -/
structure RunTurn (cfg : SwitchConfig) (cpu : Int) (t : ℕ → Int) (e b : ℕ) (out : SwitchRun) :
    Prop where
  sync : out.running.syncSwitch = true
  onCpu : out.running.ptq.cpu = cpu
  clean : Clean cfg out.running.ptq out.running.ptq.outputs
  labelled : cfg.Labelled t e b out.sampled
  goes : out.ret = 0 → Tracing t (out.running.machine.getCurrentTid cpu) out.running.ptq e
    (b + cfg.switches out.sampled)
  parks : 0 < out.ret → Parked t (out.running.machine.getCurrentTid cpu) out.running.ptq e
    (b + cfg.switches out.sampled)

theorem RunTurn.after {out : SwitchRun} {xs : List Delivered}
    (h : RunTurn cfg cpu t e (b + cfg.switches xs) out) (hxs : cfg.Labelled t e b xs) :
    RunTurn cfg cpu t e b (out.after xs) where
  sync := h.sync
  onCpu := h.onCpu
  clean := h.clean
  labelled := labelled_append.mpr ⟨hxs, h.labelled⟩
  goes hret := by
    rw [SwitchRun.after, switches_append, ← Nat.add_assoc]
    exact h.goes hret
  parks hret := by
    rw [SwitchRun.after, switches_append, ← Nat.add_assoc]
    exact h.parks hret

theorem SwitchRuns.turn (hdeliver : ∀ i n, cfg.deliver i n ≤ 0) (hcpu : OnCpu cfg cpu queue)
    {timestamp : UInt64} {outputs : List State} {r : Running} {out : SwitchRun}
    (h : SwitchRuns cfg pt queue timestamp outputs r out) (hsync : r.syncSwitch = true)
    (hq : r.ptq.cpu = cpu) (htracing : Tracing t (r.machine.getCurrentTid cpu) r.ptq e b)
    (htid : r.ptq.tid = t b) (hclean : Clean cfg r.ptq outputs)
    (hdata : out.running.ptq.ranDry = false) (hret : 0 ≤ out.ret) :
    RunTurn cfg cpu t e b out := by
  induction h generalizing b with
  | stopped hs herr =>
    have hturn := Running.sample_turn hdeliver hcpu hsync hq htracing htid hclean.waiting hs hret
    refine ⟨hturn.sync, hturn.onCpu, ⟨fun hw => ?_, hclean.coming⟩, hturn.labelled,
      fun hzero => absurd hzero herr, fun hpos => ?_⟩
    · cases hturn.taken.symm.trans hw
    · obtain ⟨h₁, h₂, h₃, h₄⟩ := hturn.parks hpos
      exact ⟨h₁, h₂, h₃, h₄⟩
  | dry _ => cases hdata
  | nodata _ _ => cases hdata
  | lost _ he _ _ => cases he.symm.trans (hclean.coming _ List.mem_cons_self).1
  | error _ he _ _ _ _ => cases he.symm.trans (hclean.coming _ List.mem_cons_self).1
  | @reached state rest r r' r₁ xs hs _ hr₁ _ =>
    subst hr₁
    have hturn := Running.sample_turn hdeliver hcpu hsync hq htracing htid hclean.waiting hs
      (le_refl _)
    have hplain := (hclean.coming state List.mem_cons_self).2
    have hrest (s : State) (hs : s ∈ rest) := hclean.coming s (List.mem_cons_of_mem state hs)
    refine ⟨hturn.sync, hturn.onCpu, ⟨fun _ => hplain, hrest⟩, hturn.labelled, fun _ => ?_,
      fun hpos => absurd hpos (lt_irrefl _)⟩
    exact (hturn.goes rfl).1.congr rfl rfl
  | @next state rest r r' out xs hs _ _ ih =>
    have hturn := Running.sample_turn hdeliver hcpu hsync hq htracing htid hclean.waiting hs
      (le_refl _)
    have hplain := (hclean.coming state List.mem_cons_self).2
    have hrest (s : State) (hs : s ∈ rest) := hclean.coming s (List.mem_cons_of_mem state hs)
    obtain ⟨hgoes, htid'⟩ := hturn.goes rfl
    have hlater := ih (b := b + cfg.switches xs) hturn.sync hturn.onCpu (hgoes.congr rfl rfl) htid'
      ⟨fun _ => hplain, hrest⟩ hdata hret
    exact hlater.after hturn.labelled

end

def SideEvent.switchesTo (cfg : SwitchConfig) (event : SideEvent) : Option (Int × Int) :=
  match event.kind with
  | .sample isSwitch nextPid => if cfg.switchEvsel && isSwitch then some (-1, nextPid) else none
  | .switch out =>
    if cfg.haveSchedSwitch = 3 || out then none else some (event.pid, event.tid)
  | .switchCpuWide out pid tid =>
    if cfg.haveSchedSwitch = 3 then if out then some (pid, tid) else none
    else if out then none
    else some (event.pid, event.tid)
  | _ => none

namespace SwitchPt

/-- What has been sampled from a queue. -/
def sampledOf (s : SwitchPt) (i : ℕ) : List Delivered :=
  (s.sampled.filter fun x => x.1 == i).map Prod.snd

structure Others (cpu : Int) (i : ℕ) (s s' : SwitchPt) : Prop where
  exact : s'.HeapExact
  sync : s'.syncSwitch = s.syncSwitch
  found : s'.queues.cpuToQueue cpu = s.queues.cpuToQueue cpu
  queue : s'.queue i = s.queue i
  current : s'.machine.getCurrentTid cpu = s.machine.getCurrentTid cpu
  sampled : s'.sampledOf i = s.sampledOf i

/-- The queue of a processor traces a thread, on the heap and with switches synchronised. -/
structure Starts (cfg : SwitchConfig) (cpu : Int) (i : ℕ) (tid : Int) (s : SwitchPt) : Prop where
  exact : s.HeapExact
  sync : s.syncSwitch = true
  sched : cfg.haveSchedSwitch ≠ 0
  found : s.queues.cpuToQueue cpu = some i
  queue : (s.queue i).cpu = cpu
  current : s.machine.getCurrentTid cpu = tid
  sampled : s.sampledOf i = []
  ptq : ∃ q, s.ptq i = some q ∧ q.cpu = cpu ∧ q.switchState = .tracing ∧ q.nextTid = -1 ∧
    q.onHeap = true ∧ Clean cfg q q.outputs

/-- The turns of the queue and the events of the processor, with `e` events so far. -/
inductive Turns (cfg : SwitchConfig) (cpu : Int) (i : ℕ) (t : ℕ → Int) (s₀ : SwitchPt) :
    ℕ → SwitchPt → Prop
  | start : Turns cfg cpu i t s₀ 0 s₀
  | run {e s s' timestamp} (h : Turns cfg cpu i t s₀ e s)
    (hroot : (s.heap.heapArray 0).queueNr = i) (hpass : s.pass cfg timestamp = .again s')
    (hdata : ∀ q, s'.ptq i = some q → q.ranDry = false) : Turns cfg cpu i t s₀ e s'
  | event {e s s' event pid ret} (h : Turns cfg cpu i t s₀ e s)
    (hcomplete : e ≤ cfg.switches (s.sampledOf i)) (htid : t (e + 1) ≠ -1)
    (hcpu : event.cpu = cpu) (hto : event.switchesTo cfg = some (pid, t (e + 1)))
    (hevent : s.finish cfg event = (ret, s')) : Turns cfg cpu i t s₀ (e + 1) s'
  | other {e s s'} (h : Turns cfg cpu i t s₀ e s) (hothers : Others cpu i s s') :
    Turns cfg cpu i t s₀ e s'

/-- What holds of the queue with `e` events so far. -/
structure Synced (cfg : SwitchConfig) (cpu : Int) (i : ℕ) (t : ℕ → Int) (e : ℕ) (s : SwitchPt) :
    Prop where
  exact : s.HeapExact
  sync : s.syncSwitch = true
  found : s.queues.cpuToQueue cpu = some i
  onCpu : OnCpu cfg cpu (s.queue i)
  labelled : cfg.Labelled t e 0 (s.sampledOf i)
  phase : ∃ q, s.ptq i = some q ∧ q.cpu = cpu ∧ Clean cfg q q.outputs ∧
    (Tracing t (s.machine.getCurrentTid cpu) q e (cfg.switches (s.sampledOf i)) ∧
        q.onHeap = true ∨
      Parked t (s.machine.getCurrentTid cpu) q e (cfg.switches (s.sampledOf i)) ∧
        q.onHeap = false)

section

variable {cfg : SwitchConfig} {cpu : Int} {i e : ℕ} {t : ℕ → Int} {s s' : SwitchPt}

theorem finish_of_switchesTo {event : SideEvent} {pid tid : Int}
    (hto : event.switchesTo cfg = some (pid, tid)) (htid : tid ≠ -1) :
    s.finish cfg event = s.switchTo cfg event.cpu pid tid event.time := by
  unfold SideEvent.switchesTo at hto
  unfold finish
  split at hto
  · next isSwitch nextPid hkind =>
    rw [hkind]
    split at hto
    · next hswitch =>
      obtain ⟨rfl, rfl⟩ := Prod.mk.inj (Option.some.inj hto)
      rw [Bool.and_eq_true] at hswitch
      simp only [hswitch.1, processSwitch, hswitch.2, if_true]
    · cases hto
  · next out hkind =>
    rw [hkind]
    split at hto
    · cases hto
    · next hin =>
      obtain ⟨rfl, rfl⟩ := Prod.mk.inj (Option.some.inj hto)
      simp only [Bool.or_eq_true, decide_eq_true_eq, not_or, Bool.not_eq_true] at hin
      simp only [contextSwitch, if_neg hin.1, hin.2, Bool.false_eq_true, if_false, if_neg htid]
  · next out pid' tid' hkind =>
    rw [hkind]
    split_ifs at hto with hthree hout hout
    · obtain ⟨rfl, rfl⟩ := Prod.mk.inj (Option.some.inj hto)
      simp only [contextSwitch, if_pos hthree, hout, Bool.true_eq_false, if_false, if_neg htid]
    · obtain ⟨rfl, rfl⟩ := Prod.mk.inj (Option.some.inj hto)
      simp only [contextSwitch, if_neg hthree, hout, if_neg htid]
      rfl
  · cases hto

theorem cpu_attach (queues : AuxtraceQueues (List State) SwitchPtq) (i : ℕ) (q : SwitchPtq)
    (j : ℕ) : ((queues.attach i q).queueArray j).cpu = (queues.queueArray j).cpu := by
  simp only [AuxtraceQueues.attach]
  by_cases hj : j = i
  · rw [hj, update_self]
  · rw [update_of_ne hj]

theorem Synced.attached {e' : ℕ} {q : SwitchPtq} (h : Synced cfg cpu i t e s)
    (hexact : s'.HeapExact) (hqueues : s'.queues = s.queues.attach i q)
    (hsync : s'.syncSwitch = true) (hlabelled : cfg.Labelled t e' 0 (s'.sampledOf i))
    (hcpu : q.cpu = cpu) (hclean : Clean cfg q q.outputs)
    (hphase : Tracing t (s'.machine.getCurrentTid cpu) q e' (cfg.switches (s'.sampledOf i)) ∧
        q.onHeap = true ∨
      Parked t (s'.machine.getCurrentTid cpu) q e' (cfg.switches (s'.sampledOf i)) ∧
        q.onHeap = false) : Synced cfg cpu i t e' s' := by
  have hcpus (j : ℕ) : (s'.queues.queueArray j).cpu = (s.queues.queueArray j).cpu := by
    rw [hqueues]
    exact cpu_attach s.queues i q j
  have hnr : s'.queues.nrQueues = s.queues.nrQueues := by rw [hqueues]; rfl
  have hptq : s'.ptq i = some q := by
    rw [ptq, queue, hqueues]
    exact ptq_store s i q
  constructor
  case exact => exact hexact
  case sync => exact hsync
  case found => exact (AuxtraceQueues.cpuToQueue_congr hnr hcpus).trans h.found
  case onCpu =>
    exact ⟨h.onCpu.sched, (hcpus i).trans h.onCpu.queue, h.onCpu.least, h.onCpu.below⟩
  case labelled => exact hlabelled
  case phase => exact ⟨q, hptq, hcpu, hclean, hphase⟩

theorem enter_sync (cfg : SwitchConfig) (h : s.syncSwitch = true) :
    (s.enter cfg).syncSwitch = true ∧ (s.enter cfg).machine = s.machine := by
  unfold enter
  split
  · simp [h]
  · exact ⟨h, rfl⟩

theorem sampledOf_append {xs : List Delivered}
    (h : s'.sampled = s.sampled ++ xs.map fun x => (i, x)) :
    s'.sampledOf i = s.sampledOf i ++ xs := by
  have hown : (xs.map fun x => (i, x)).filter (fun x => x.1 == i) = xs.map fun x => (i, x) := by
    apply List.filter_eq_self.mpr
    intro x hx
    obtain ⟨y, -, rfl⟩ := List.mem_map.mp hx
    exact beq_self_eq_true i
  rw [sampledOf, h, List.filter_append, hown, List.map_append, List.map_map]
  exact congrArg _ (List.map_id xs)

theorem Synced.ran (hmem : ∀ n, cfg.realloc n = true) (hdeliver : ∀ i n, cfg.deliver i n ≤ 0)
    (h : Synced cfg cpu i t e s) (h0 : s.heap.heapCnt ≠ 0)
    (hroot : (s.heap.heapArray 0).queueNr = i) {q : SwitchPtq} (hq : s.ptq i = some q)
    {timestamp : UInt64} {out : SwitchRun} (hran : Ran cfg s i q timestamp out s')
    (hdata : out.running.ptq.ranDry = false) (hret : 0 ≤ out.ret) :
    out.running.ptq.onHeap = true ∧ s'.syncSwitch = true ∧
      cfg.Labelled t e 0 (s'.sampledOf i) ∧ out.running.ptq.cpu = cpu ∧
      Clean cfg out.running.ptq out.running.ptq.outputs ∧
      (out.ret = 0 → Tracing t (s'.machine.getCurrentTid cpu) out.running.ptq e
        (cfg.switches (s'.sampledOf i))) ∧
      (0 < out.ret → Parked t (s'.machine.getCurrentTid cpu) out.running.ptq e
        (cfg.switches (s'.sampledOf i))) := by
  obtain ⟨q', hq', hcpu, hclean, hphase⟩ := h.phase
  cases hq.symm.trans hq'
  have hon : q.onHeap = true :=
    (Exact.mem_members h.exact hq).mp (Exact.pop h.exact h0 hroot hmem).1
  obtain ⟨htracing, -⟩ := hphase.resolve_right fun hparked => by
    cases hon.symm.trans hparked.2
  obtain ⟨hsync, hmachine⟩ := enter_sync cfg h.sync
  obtain ⟨htid, hcpu'⟩ := setPidTidCpu_tid h.onCpu s.machine hcpu
  have hruns := hran.runs
  rw [hmachine] at hruns
  have hturn := hruns.turn hdeliver h.onCpu hsync hcpu' (htracing.congr (by simp) (by simp))
    (htid.trans htracing.current) ⟨by simpa using hclean.waiting, hclean.coming⟩ hdata hret
  have hsampled := sampledOf_append hran.sampled
  rw [hran.syncSwitch, hran.machine, hsampled, switches_append, labelled_append, Nat.zero_add]
  exact ⟨hran.stays.onHeap.trans hon, hturn.sync, ⟨h.labelled, hturn.labelled⟩, hturn.onCpu,
    hturn.clean, hturn.goes, hturn.parks⟩

theorem Synced.run (hmem : ∀ n, cfg.realloc n = true) (hdeliver : ∀ i n, cfg.deliver i n ≤ 0)
    (h : Synced cfg cpu i t e s) (hroot : (s.heap.heapArray 0).queueNr = i) {timestamp : UInt64}
    (hpass : s.pass cfg timestamp = .again s')
    (hdata : ∀ q, s'.ptq i = some q → q.ranDry = false) : Synced cfg cpu i t e s' := by
  have hexact := h.exact.pass hmem timestamp
  have hpasses := passes_pass cfg timestamp s
  rw [hpass] at hexact hpasses
  cases hpasses with
  | @back j q out u ret heap h0 hj hq hrun hret hadd =>
    obtain rfl : i = j := hroot.symm.trans hj
    have hran := SwitchPt.ran hrun
    have hptq : u.ptq i = some out.running.ptq := by
      rw [ptq, queue, hran.queues]
      exact ptq_store s i _
    obtain ⟨hon, hsync, hlabelled, hcpu, hclean, hgoes, -⟩ :=
      h.ran hmem hdeliver h0 hroot hq hran (hdata _ hptq) hret.ge
    exact h.attached hexact hran.queues hsync hlabelled hcpu hclean (.inl ⟨hgoes hret, hon⟩)
  | @off j q out u h0 hj hq hrun hret =>
    obtain rfl : i = j := hroot.symm.trans hj
    have hran := SwitchPt.ran hrun
    have hdry := hdata { out.running.ptq with onHeap := false } (ptq_store u i _)
    obtain ⟨-, hsync, hlabelled, hcpu, hclean, -, hparks⟩ :=
      h.ran hmem hdeliver h0 hroot hq hran hdry hret.le
    have hqueues : (u.store i { out.running.ptq with onHeap := false }).queues =
        s.queues.attach i { out.running.ptq with onHeap := false } := by
      rw [store, hran.queues, attach_attach]
    obtain ⟨hcount, hcurrent, hstate, hnext⟩ := hparks hret
    exact h.attached hexact hqueues hsync hlabelled hcpu ⟨hclean.waiting, hclean.coming⟩
      (.inr ⟨⟨hcount, hcurrent, hstate, hnext⟩, rfl⟩)

theorem Synced.switchTo (hmem : ∀ n, cfg.realloc n = true) (h : Synced cfg cpu i t e s)
    (hcomplete : e ≤ cfg.switches (s.sampledOf i)) (htid : t (e + 1) ≠ -1) (pid : Int)
    (time : UInt64) : Synced cfg cpu i t (e + 1) (s.switchTo cfg cpu pid (t (e + 1)) time).2 := by
  have hexact := (heapExact_preserved hmem).switchTo cpu pid (t (e + 1)) time h.exact
  have hlabelled := labelled_mono (Nat.le_succ e) h.labelled
  obtain ⟨q, hq, hcpu, hclean, hphase⟩ := h.phase
  have hnr : q.queueNr = i := (h.exact.numbered i q hq).1
  have hlookup : ((s.queues.cpuToQueue cpu).bind fun i => (s.ptq i).map fun q => (i, q)) =
      some (i, q) := by
    rw [h.found, Option.bind_some, hq, Option.map_some]
  have hsync : ¬ s.syncSwitch = false := by
    rw [h.sync]
    exact Bool.true_eq_false_eq_False
  rcases hphase with ⟨htracing, hon⟩ | ⟨hparked, hoff⟩
  · generalize hb : cfg.switches (s.sampledOf i) = b at htracing hcomplete
    cases htracing with
    | both hcurrent hstate hnext =>
      have hswitch (tsc : UInt64) : q.onSwitch (t (e + 1)) tsc =
          (0, { q with nextTid := t (e + 1), switchState := .expectingSwitchIp }) := by
        rw [SwitchPtq.onSwitch, hstate]
      have heq : s.switchTo cfg cpu pid (t (e + 1)) time = (0, s.store i { q with
          nextTid := t (e + 1), switchState := .expectingSwitchIp }) := by
        unfold SwitchPt.switchTo SwitchPt.syncSwitchTo
        rw [if_neg hsync, hlookup]
        dsimp only
        rw [hswitch]
        simp
      rw [heq] at hexact ⊢
      apply h.attached hexact rfl h.sync hlabelled hcpu ⟨hclean.waiting, hclean.coming⟩
      have hcount : cfg.switches ((s.store i { q with
          nextTid := t (e + 1), switchState := .expectingSwitchIp }).sampledOf i) = e := hb
      rw [hcount]
      exact .inl ⟨.eventFirst hcurrent rfl rfl htid, hon⟩
    | eventFirst _ _ _ _ => omega
  · have hswitch (tsc : UInt64) : q.onSwitch (t (e + 1)) tsc =
        (1, { q with timestamp := tsc, onHeap := true, switchState := .tracing }) := by
      rw [SwitchPtq.onSwitch, hparked.state]
      simp [hoff]
    obtain ⟨hlt, hin⟩ : i < s.queues.nrQueues.toNat ∧ i ∉ members s.queues := by
      rw [Exact.mem_members h.exact hq, hoff]
      exact ⟨(h.exact.numbered i q hq).2, Bool.false_ne_true⟩
    have hadd (tsc : UInt64) : (s.heap.add cfg.realloc i tsc).1 = 0 :=
      (Exact.attach_add h.exact (q := { q with onHeap := true }) hlt hnr hin rfl hmem trivial).1
    obtain ⟨hset, hcurrent⟩ := getCurrentTid_set h.onCpu s.machine pid (t (e + 1))
    have heq : s.switchTo cfg cpu pid (t (e + 1)) time = (0, { s.store i { q with
          timestamp := perfTimeToTsc time s.pt.tc, onHeap := true, switchState := .tracing } with
        heap := (s.heap.add cfg.realloc i (perfTimeToTsc time s.pt.tc)).2
        machine := (s.machine.setCurrentTid cpu pid (t (e + 1))).2 }) := by
      unfold SwitchPt.switchTo SwitchPt.syncSwitchTo
      rw [if_neg hsync, hlookup]
      dsimp only
      rw [hswitch]
      simp [hoff, hnr, hadd, SwitchPt.setCurrentTid, store, hset]
    rw [heq] at hexact ⊢
    apply h.attached hexact rfl h.sync hlabelled hcpu ⟨hclean.waiting, hclean.coming⟩
    have hboth : Tracing t ((s.machine.setCurrentTid cpu pid (t (e + 1))).2.getCurrentTid cpu)
        { q with
          timestamp := perfTimeToTsc time s.pt.tc, onHeap := true, switchState := .tracing }
        (e + 1) (cfg.switches (s.sampledOf i)) := by
      rw [hparked.count]
      exact .both hcurrent rfl hparked.nextTid
    exact .inl ⟨hboth, rfl⟩

theorem Synced.others (h : Synced cfg cpu i t e s) (hothers : Others cpu i s s') :
    Synced cfg cpu i t e s' := by
  obtain ⟨q, hq, hphase⟩ := h.phase
  have hptq : s'.ptq i = some q := by
    rw [ptq, hothers.queue]
    exact hq
  rw [← hothers.current, ← hothers.sampled] at hphase
  exact ⟨hothers.exact, hothers.sync.trans h.sync, hothers.found.trans h.found,
    hothers.queue ▸ h.onCpu, hothers.sampled ▸ h.labelled, q, hptq, hphase⟩

theorem Starts.synced (h : Starts cfg cpu i (t 0) s) (hcpu : cpu < Machine.maxNrCpus) :
    Synced cfg cpu i t 0 s := by
  obtain ⟨q, hq, hqcpu, hstate, hnext, hon, hclean⟩ := h.ptq
  have hleast : 0 ≤ cpu := by
    by_contra hneg
    have hfound := h.found
    simp only [AuxtraceQueues.cpuToQueue, if_pos (Or.inl (not_le.mp hneg))] at hfound
    cases hfound
  constructor
  case exact => exact h.exact
  case sync => exact h.sync
  case found => exact h.found
  case onCpu => exact ⟨h.sched, h.queue, hleast, hcpu⟩
  case labelled => rw [h.sampled]; trivial
  case phase =>
    rw [h.sampled]
    exact ⟨q, hq, hqcpu, hclean, .inl ⟨.both h.current hstate hnext, hon⟩⟩

theorem Turns.synced (hmem : ∀ n, cfg.realloc n = true) (hdeliver : ∀ i n, cfg.deliver i n ≤ 0)
    (hcpu : cpu < Machine.maxNrCpus) {s₀ : SwitchPt} (hs₀ : Starts cfg cpu i (t 0) s₀)
    (h : Turns cfg cpu i t s₀ e s) : Synced cfg cpu i t e s := by
  induction h with
  | start => exact hs₀.synced hcpu
  | run _ hroot hpass hdata ih => exact ih.run hmem hdeliver hroot hpass hdata
  | @event e s s' event pid ret _ hcomplete htid hevcpu hto hevent ih =>
    have hsynced := ih.switchTo hmem hcomplete htid pid event.time
    rw [finish_of_switchesTo hto htid, hevcpu] at hevent
    rw [hevent] at hsynced
    exact hsynced
  | other _ hothers ih => exact ih.others hothers

/-- Whatever comes first, the event or the branch, for each switch by itself: once both have come,
the queue is on the heap and traces, for the thread of the last switch. -/
theorem switch_order_independent (hmem : ∀ n, cfg.realloc n = true)
    (hdeliver : ∀ i n, cfg.deliver i n ≤ 0) (hcpu : cpu < Machine.maxNrCpus) {s₀ : SwitchPt}
    (hs₀ : Starts cfg cpu i (t 0) s₀) (h : Turns cfg cpu i t s₀ e s) :
    (e = cfg.switches (s.sampledOf i) → ∃ q, s.ptq i = some q ∧
        s.machine.getCurrentTid cpu = t e ∧ q.switchState = .tracing ∧ q.nextTid = -1 ∧
        q.onHeap = true) ∧
      ∀ xs x ys, s.sampledOf i = xs ++ x :: ys →
        x.tid = t (cfg.switches xs) ∧ cfg.switches xs ≤ e := by
  have hsynced := h.synced hmem hdeliver hcpu hs₀
  constructor
  · intro hboth
    obtain ⟨q, hq, -, -, hphase⟩ := hsynced.phase
    rw [← hboth] at hphase
    rcases hphase with ⟨htracing, hon⟩ | ⟨hparked, -⟩
    · obtain ⟨hstate, hnext⟩ := htracing.both_of_eq rfl
      exact ⟨q, hq, htracing.current, hstate, hnext, hon⟩
    · exact absurd hparked.count (Nat.ne_of_lt (Nat.lt_succ_self e))
  · intro xs x ys hsampled
    have hlabelled := hsynced.labelled
    rw [hsampled] at hlabelled
    exact hlabelled.tid

end

def switchCfg : SwitchConfig where
  switchIp := 0xffffffff81000000
  haveSchedSwitch := 3

variable (cpu : Int)

def aboutToSwitch : SwitchPtq where
  queueNr := 0
  cpu := cpu
  onHeap := true
  switchState := .tracing
  haveSample := true
  state := {
    type := { branch := true }, fromIp := 0xffffffff81700000, toIp := 0xffffffff81000000
    insnOp := .call, timestamp := 5 }
  timestamp := 5
  outputs := [{ timestamp := 9 }]

def bareQueue : SwitchPt where
  pt := {}
  syncSwitch := true
  queues := { queueArray := update (fun _ => {}) 0 { cpu := cpu } }

def oneCpu : SwitchPt :=
  { (bareQueue cpu).store 0 (aboutToSwitch cpu) with
    heap := ((bareQueue cpu).heap.add (fun _ => true) 0 5).2 }

theorem oneCpu_starts (h : (oneCpu cpu).queues.cpuToQueue cpu = some 0)
    (hcurrent : (oneCpu cpu).machine.getCurrentTid cpu = -1) :
    Starts switchCfg cpu 0 (-1) (oneCpu cpu) := by
  have hbare : (bareQueue cpu).HeapExact := by
    apply heapExact_start _ rfl
    intro i
    simp only [ptq, queue, bareQueue]
    by_cases hi : i = 0
    · rw [hi, update_self]
    · rw [update_of_ne hi]
  have hoff : 0 ∉ members (bareQueue cpu).queues := by
    rw [mem_members]
    rintro ⟨-, q, hq, -⟩
    simp [bareQueue] at hq
  constructor
  case exact =>
    have hlt : 0 < (bareQueue cpu).queues.nrQueues.toNat := by
      change 0 < (32 : UInt32).toNat
      decide
    exact (Exact.attach_add hbare (q := aboutToSwitch cpu) hlt rfl hoff rfl
      (fun _ => rfl) trivial).2
  case sync => rfl
  case sched => decide
  case found => exact h
  case queue => simp [oneCpu, queue, store, AuxtraceQueues.attach, bareQueue]
  case current => exact hcurrent
  case sampled => rfl
  case ptq =>
    refine ⟨aboutToSwitch cpu, ptq_store _ 0 _, rfl, rfl, rfl, rfl, fun _ _ => ?_,
      fun state hs => ?_⟩
    · left
      change switchCfg.isSwitchIp (aboutToSwitch 0).state = true
      decide
    · simp only [aboutToSwitch, List.mem_singleton] at hs
      subst hs
      exact ⟨rfl, fun h => by cases h⟩

def switchOut : SideEvent where
  kind := .switchCpuWide true 7 7
  time := 8
  cpu := cpu

def threads : ℕ → Int := fun k => if k = 0 then -1 else 7

def switched : Option (Option Bool × ℕ × ℕ × Int) :=
  match (oneCpu cpu).pass switchCfg 100 with
  | .again s =>
    let s' := (s.finish switchCfg (switchOut cpu)).2
    some ((s.ptq 0).map (·.ranDry), switchCfg.switches (s.sampledOf 0),
      switchCfg.switches (s'.sampledOf 0), s'.machine.getCurrentTid cpu)
  | .leave _ => none

theorem switched_turns (cpu current : Int) (h : switched cpu = some (some false, 1, 1, current)) :
    ∃ s, Turns switchCfg cpu 0 threads (oneCpu cpu) 1 s ∧
      switchCfg.switches (s.sampledOf 0) = 1 ∧ s.machine.getCurrentTid cpu = current := by
  unfold switched at h
  rcases hpass : (oneCpu cpu).pass switchCfg 100 with r | s
  · rw [hpass] at h
    cases h
  · rw [hpass] at h
    simp only [Option.some.injEq, Prod.mk.injEq] at h
    obtain ⟨hdry, hone, hcount, hcurrent⟩ := h
    have hroot : ((oneCpu cpu).heap.heapArray 0).queueNr = 0 := by
      change ((oneCpu 0).heap.heapArray 0).queueNr = 0
      decide +kernel
    have hrun : Turns switchCfg cpu 0 threads (oneCpu cpu) 0 s := by
      apply Turns.run .start hroot hpass
      intro q hq
      rw [hq, Option.map_some] at hdry
      exact Option.some.inj hdry
    have hcpu : (switchOut cpu).cpu = cpu := rfl
    exact ⟨_, .event hrun (Nat.zero_le _) (by decide) hcpu rfl rfl, hcount, hcurrent⟩

/-- The current thread of a processor with a number that is too large is not known. -/
theorem large_cpu_unswitched : ∃ s₀ s, Starts switchCfg 1024 0 (threads 0) s₀ ∧
    Turns switchCfg 1024 0 threads s₀ 1 s ∧ 1 = switchCfg.switches (s.sampledOf 0) ∧
    s.machine.getCurrentTid 1024 ≠ threads 1 := by
  obtain ⟨s, hturns, hcount, hcurrent⟩ := switched_turns 1024 (-1) (by decide +kernel)
  refine ⟨oneCpu 1024, s, oneCpu_starts 1024 (by decide +kernel) (by decide +kernel), hturns,
    hcount.symm, ?_⟩
  rw [hcurrent]
  decide

theorem first_cpu_switched : ∃ s, Turns switchCfg 0 0 threads (oneCpu 0) 1 s ∧
    ∃ q, s.ptq 0 = some q ∧ s.machine.getCurrentTid 0 = 7 ∧ q.switchState = .tracing ∧
      q.nextTid = -1 ∧ q.onHeap = true := by
  obtain ⟨s, hturns, hcount, -⟩ := switched_turns 0 7 (by decide +kernel)
  have hstarts : Starts switchCfg 0 0 (threads 0) (oneCpu 0) :=
    oneCpu_starts 0 (by decide +kernel) (by decide +kernel)
  exact ⟨s, hturns, (switch_order_independent (fun _ => rfl) (fun _ _ => le_refl _) (by decide)
    hstarts hturns).1 hcount.symm⟩

end SwitchPt

end RPerf.Queues
