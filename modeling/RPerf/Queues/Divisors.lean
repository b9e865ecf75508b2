import RPerf.Queues.AuxtraceInfo
import RPerf.Queues.SwitchOrder

/-!
# Divisions by the words of a header

Where the program divides by `time_mult` or by the maximum non-turbo ratio: reading the
header, allocating a queue, converting the time of an event, and writing it to the log.
-/

namespace RPerf.Queues

open Function Lib Decode

/-- What comes behind a header, in any order. -/
inductive SideCall
  | event (e : SideEvent)
  | auxtrace (idx : UInt32) (buffer : AuxtraceBuffer (List State))
  | flush
  | machine (machine : Machine)

def SideCall.Does (cfg : SwitchConfig) (s s' : SwitchPt) : SideCall → Prop
  | .event e => ∃ err, SwitchPt.ProcessEvent cfg e s (err, s')
  | .auxtrace idx buffer => ∃ err, s.processAuxtraceEvent cfg idx buffer = some (err, s')
  | .flush => ∃ err, SwitchPt.Flush cfg s (err, s')
  | .machine m => s' = { s with machine := m }

/-- The states behind `s₀`. -/
inductive Behind (cfg : SwitchConfig) (s₀ : SwitchPt) : SwitchPt → Prop
  | start : Behind cfg s₀ s₀
  | call {s s' c} (h : Behind cfg s₀ s) (hc : SideCall.Does cfg s s' c) : Behind cfg s₀ s'

def SideEvent.timed (e : SideEvent) : Bool := e.time != 0 && e.time != 0xffffffffffffffff

/-- An event for which `intel_pt_sync_switch` is called. -/
def SideEvent.syncs (cfg : SwitchConfig) (e : SideEvent) : Bool :=
  match e.kind, e.switchesTo cfg with
  | _, none => false
  | .sample _ _, some _ => true
  | _, some (_, tid) => tid != -1

def SideEvent.logged (cfg : SwitchConfig) (e : SideEvent) : Bool :=
  match e.kind with
  | .itraceStart _ _ => cfg.perCpuMmaps
  | _ => e.syncs cfg

namespace SwitchPt

variable (cfg : SwitchConfig) (pt : HeaderPt)

def wakes (s : SwitchPt) (cpu : Int) : Bool :=
  s.syncSwitch && ((s.queues.cpuToQueue cpu).bind s.ptq).any fun q =>
    q.switchState == .expectingSwitchEvent && !q.onHeap

/-- `intel_pt_setup_queue` allocates. -/
def Allocates (s : SwitchPt) (i : ℕ) : Prop := (s.queue i).head ≠ [] ∧ s.ptq i = none

def SetupStops (s : SwitchPt) (i : ℕ) : Prop :=
  s.Allocates i ∧ allocPeriod pt.synthOpts s.pt.tc = none

/-- The loop of `intel_pt_setup_queues`. -/
def SetupEachStops : List ℕ → SwitchPt → Prop
  | [], _ => False
  | i :: rest, s => s.SetupStops pt i ∨
      (s.setupQueue cfg i).1 = 0 ∧ SetupEachStops rest (s.setupQueue cfg i).2

def UpdateStops (s : SwitchPt) : Prop :=
  s.queues.newData = true ∧ SetupEachStops cfg pt (List.range s.queues.nrQueues.toNat)
    { s with queues := { s.queues with newData := false } }

def FinishStops (e : SideEvent) (s : SwitchPt) : Prop :=
  (pt.synthOpts.log = true ∧ e.logged cfg = true ∨ e.syncs cfg = true ∧ s.wakes e.cpu = true) ∧
    perfTimeToTscOrStop e.time s.pt.tc = none

def EventStops (e : SideEvent) (s : SwitchPt) : Prop :=
  e.timed = true ∧ perfTimeToTscOrStop e.time s.pt.tc = none ∨
    (s.eventTsc e ≠ 0 ∨ s.pt.timelessDecoding = true) ∧ s.UpdateStops cfg pt ∨
    ∃ s₁ s₂, (if s.eventTsc e ≠ 0 || s.pt.timelessDecoding then s.updateQueues cfg else (0, s)) =
        (0, s₁) ∧ RunsUpTo cfg e s₁ (0, s₂) ∧ s₂.FinishStops cfg pt e

end SwitchPt

/-- A call comes to a division by zero. -/
def SideCall.Stops (cfg : SwitchConfig) (pt : HeaderPt) (s : SwitchPt) : SideCall → Prop
  | .event e => cfg.dumpTrace = false ∧ cfg.orderedEvents = true ∧ s.EventStops cfg pt e
  | .flush => cfg.dumpTrace = false ∧ cfg.orderedEvents = true ∧ s.UpdateStops cfg pt
  | .auxtrace _ _ => False
  | .machine _ => False

/-- The period is given as a time. -/
def SynthOpts.timedPeriod (opts : SynthOpts) : Bool :=
  opts.instructions && opts.period != 0 && opts.periodType == .nanosecs

def SwitchPt.AllocatesTimed (s : SwitchPt) (pt : HeaderPt) : Prop :=
  pt.synthOpts.timedPeriod = true ∧ s.queues.newData = true ∧
    ∃ i < s.queues.nrQueues.toNat, s.Allocates i

/-- The calls that divide by `time_mult` nowhere. -/
def SideCall.Undivided (cfg : SwitchConfig) (pt : HeaderPt) (s : SwitchPt) : SideCall → Prop
  | .event e => e.timed = false ∧ (pt.timelessDecoding = true → ¬ s.AllocatesTimed pt) ∧
      ¬ (pt.synthOpts.log = true ∧ e.logged cfg = true) ∧
      ¬ (e.syncs cfg = true ∧ s.wakes e.cpu = true)
  | .flush => ¬ s.AllocatesTimed pt
  | .auxtrace _ _ => True
  | .machine _ => True

def SideCall.Safe (cfg : SwitchConfig) (pt : HeaderPt) (s : SwitchPt) (c : SideCall) : Prop :=
  pt.tc.timeMult ≠ 0 ∨ cfg.dumpTrace = true ∨ cfg.orderedEvents = false ∨ c.Undivided cfg pt s

/-- The condition on a header. -/
def AuxtraceInfo.Safe (session : PerfSession) (info : AuxtraceInfo) : Prop :=
  session.dumpTrace = true ∨
    if info.tc.timeMult = 0 then
      ¬ (session.ptEvsel info.pmuType ≠ none ∧ session.synthOpts.instructions = true ∧
        session.synthOpts.periodType = .nanosecs)
    else
      info.recordedRatio ≠ 0 ∨
        ∀ tscFreq, nsToTicks info.tc 1000000000 = some tscFreq → HeaderPt.ratioOf tscFreq ≠ 0

/-- Nothing in front of the divisions refuses the header. -/
structure AuxtraceInfo.Passes (calls : InfoCalls) (session : PerfSession) (info : AuxtraceInfo) :
    Prop where
  accepted : info.refuses calls = 0
  events : session.hasSwitchEvents info.haveSchedSwitch = true
  branches : info.tc.timeMult = 0 → calls.failing [(session.synthOpts.branches, .branch)] = 0

theorem divBy_eq_none {a : UInt64} {d : UInt32} : divBy a d = none ↔ d = 0 := by
  unfold divBy
  split
  · next h => exact iff_of_true rfl h
  · next h => exact iff_of_false nofun h

namespace HeaderPt

variable {pt : HeaderPt} {calls : InfoCalls} {session : PerfSession}

theorem scale_eq_none : pt.scale = none ↔ pt.tc.timeMult ≠ 0 ∧ pt.maxNonTurboRatio = 0 ∧
    ∃ tscFreq, nsToTicks pt.tc 1000000000 = some tscFreq ∧ ratioOf tscFreq = 0 := by
  unfold scale
  by_cases hzero : pt.tc.timeMult = 0
  · simp [hzero]
  · obtain ⟨tscFreq, hfreq⟩ : ∃ tscFreq, nsToTicks pt.tc 1000000000 = some tscFreq :=
      ⟨_, ticks_of_ne hzero _⟩
    rw [if_neg hzero, hfreq, Option.bind_some, Option.map_eq_none_iff, divBy_eq_none, ratio]
    by_cases hratio : pt.maxNonTurboRatio = 0
    · simp [hzero, hratio]
    · simp [hratio]

theorem scale_frame {pt' : HeaderPt} (h : pt.scale = some pt') :
    pt'.tc = pt.tc ∧ pt'.synthOpts = pt.synthOpts ∧ pt'.pmuType = pt.pmuType := by
  unfold scale at h
  split_ifs at h with hzero
  · cases h
    exact ⟨rfl, rfl, rfl⟩
  · obtain ⟨tscFreq, -, h⟩ := Option.bind_eq_some_iff.mp h
    obtain ⟨quot, -, rfl⟩ := Option.map_eq_some_iff.mp h
    exact ⟨rfl, rfl, rfl⟩

theorem attrSamplePeriod_eq_none : pt.attrSamplePeriod = none ↔
    pt.tc.timeMult = 0 ∧ pt.synthOpts.instructions = true ∧
      pt.synthOpts.periodType = .nanosecs := by
  unfold attrSamplePeriod nsToTicks
  split_ifs with hinsn htimed
  · simp [hinsn]
  · simp [hinsn, htimed]
  · simp [htimed]

theorem synthEvents_eq_none : pt.synthEvents calls session = none ↔
    session.ptEvsel pt.pmuType ≠ none ∧
      calls.failing [(pt.synthOpts.branches, .branch)] = 0 ∧ pt.attrSamplePeriod = none := by
  unfold synthEvents
  cases session.ptEvsel pt.pmuType with
  | none => simp
  | some evsel =>
    dsimp only
    by_cases hfails : calls.failing [(pt.synthOpts.branches, .branch)] = 0
    · rw [if_neg (not_not.mpr hfails), Option.map_eq_none_iff]
      simp [hfails]
    · rw [if_pos hfails]
      simp [hfails]

theorem configure_eq_none : pt.configure calls session = none ↔
    pt.tc.timeMult ≠ 0 ∧ pt.maxNonTurboRatio = 0 ∧
        (∃ tscFreq, nsToTicks pt.tc 1000000000 = some tscFreq ∧ ratioOf tscFreq = 0) ∨
      pt.tc.timeMult = 0 ∧ session.ptEvsel pt.pmuType ≠ none ∧
        session.synthOpts.instructions = true ∧ session.synthOpts.periodType = .nanosecs ∧
        calls.failing [(session.synthOpts.branches, .branch)] = 0 := by
  have hnone : (pt.withOpts session.synthOpts).scale = none ↔ pt.tc.timeMult ≠ 0 ∧
      pt.maxNonTurboRatio = 0 ∧
        ∃ tscFreq, nsToTicks pt.tc 1000000000 = some tscFreq ∧ ratioOf tscFreq = 0 :=
    scale_eq_none
  rw [← hnone]
  unfold configure
  cases hscale : (pt.withOpts session.synthOpts).scale with
  | none => simp
  | some pt' =>
    obtain ⟨htc, hopts, htype⟩ := scale_frame hscale
    rw [Option.bind_some, Option.map_eq_none_iff, synthEvents_eq_none, attrSamplePeriod_eq_none,
      htc, hopts, htype]
    simp only [withOpts, reduceCtorEq, false_or]
    tauto

end HeaderPt

theorem AuxtraceInfo.not_safe {session : PerfSession} {info : AuxtraceInfo} :
    ¬ info.Safe session ↔ session.dumpTrace = false ∧
      (info.tc.timeMult ≠ 0 ∧ info.recordedRatio = 0 ∧
          (∃ tscFreq, nsToTicks info.tc 1000000000 = some tscFreq ∧
            HeaderPt.ratioOf tscFreq = 0) ∨
        info.tc.timeMult = 0 ∧ session.ptEvsel info.pmuType ≠ none ∧
          session.synthOpts.instructions = true ∧ session.synthOpts.periodType = .nanosecs) := by
  unfold AuxtraceInfo.Safe
  by_cases hzero : info.tc.timeMult = 0
  · simp [hzero]
  · simp [hzero]

theorem processAuxtraceInfo_eq_none (calls : InfoCalls) (session : PerfSession)
    (info : AuxtraceInfo) : processAuxtraceInfo calls session info = none ↔
      info.Passes calls session ∧ ¬ info.Safe session := by
  rw [AuxtraceInfo.not_safe]
  have hnone : (info.headerPt session).withSwitchEvsel.configure calls session = none ↔
      info.tc.timeMult ≠ 0 ∧ info.recordedRatio = 0 ∧
          (∃ tscFreq, nsToTicks info.tc 1000000000 = some tscFreq ∧
            HeaderPt.ratioOf tscFreq = 0) ∨
        info.tc.timeMult = 0 ∧ session.ptEvsel info.pmuType ≠ none ∧
          session.synthOpts.instructions = true ∧ session.synthOpts.periodType = .nanosecs ∧
          calls.failing [(session.synthOpts.branches, .branch)] = 0 :=
    HeaderPt.configure_eq_none
  have hhave : (info.headerPt session).haveSchedSwitch = info.haveSchedSwitch := rfl
  unfold processAuxtraceInfo
  simp only [hhave]
  by_cases hrefuses : info.refuses calls = 0
  · rw [if_neg (not_not.mpr hrefuses)]
    by_cases hdump : session.dumpTrace = true
    · simp [hdump]
    · rw [if_neg hdump]
      by_cases hevents : session.hasSwitchEvents info.haveSchedSwitch = false
      · rw [if_pos hevents]
        refine iff_of_false nofun fun h => ?_
        rw [h.1.events] at hevents
        exact absurd hevents nofun
      · have hpasses : info.Passes calls session ↔ (info.tc.timeMult = 0 →
            calls.failing [(session.synthOpts.branches, .branch)] = 0) :=
          ⟨AuxtraceInfo.Passes.branches, fun h => ⟨hrefuses, by simpa using hevents, h⟩⟩
        rw [if_neg hevents, hnone, hpasses]
        rw [Bool.not_eq_true] at hdump
        by_cases hzero : info.tc.timeMult = 0
        · simp only [hzero, hdump, ne_eq, not_true_eq_false, false_and, false_or, true_and,
            forall_const]
          tauto
        · simp only [hzero, hdump, false_and, or_false, true_and, IsEmpty.forall_iff]
  · rw [if_pos hrefuses]
    exact iff_of_false nofun fun h => hrefuses h.1.accepted

section

variable {cfg : SwitchConfig} {queue : SwitchQueue} {timestamp : UInt64} {outputs : List State}

theorem sample_syncSwitch {pt : Pt} {r r' : Running} {err : Int} {xs : List Delivered}
    (hs : r.sample cfg pt queue = (err, r', xs)) : r'.syncSwitch = r.syncSwitch := by
  unfold Running.sample at hs
  generalize Queues.sample pt (cfg.deliver r.ptq.queueNr) r.ptq.toPtq = out at hs
  obtain ⟨err₁, q, sampled⟩ := out
  dsimp only at hs
  split_ifs at hs
  · cases hs
    rfl
  · have hframe := (switch_frame cfg queue { r with ptq := { r.ptq with toPtq := q } }).1
    cases hs
    exact hframe
  · cases hs
    rfl

theorem SwitchRuns.sync_off {pt : Pt} {r : Running} {out : SwitchRun}
    (h : SwitchRuns cfg pt queue timestamp outputs r out) (hoff : r.syncSwitch = false) :
    out.running.syncSwitch = false := by
  have hfailed {r : Running} (state : State) (hoff : r.syncSwitch = false) :
      (r.failed cfg pt queue state).syncSwitch = false := by
    rw [← Bool.not_eq_true]
    intro hon
    rw [(failed_frame cfg pt queue r state).2.2 hon] at hoff
    exact absurd hoff nofun
  induction h with
  | stopped hs _ => exact (sample_syncSwitch hs).trans hoff
  | dry hs => exact (sample_syncSwitch hs).trans hoff
  | nodata hs _ => exact (sample_syncSwitch hs).trans hoff
  | lost hs _ hr₁ _ =>
    subst hr₁
    exact hfailed _ ((sample_syncSwitch hs).trans hoff)
  | error hs _ _ hr₁ _ ih =>
    apply ih
    rcases hr₁ with rfl | rfl
    · exact hfailed _ ((sample_syncSwitch hs).trans hoff)
    · exact hfailed _ ((sample_syncSwitch hs).trans hoff)
  | reached hs _ hr₁ _ =>
    subst hr₁
    exact (sample_syncSwitch hs).trans hoff
  | next hs _ _ ih => exact ih ((sample_syncSwitch hs).trans hoff)

end

namespace SwitchPt

variable {cfg : SwitchConfig} {pt : HeaderPt} {s s₀ : SwitchPt}

structure Kept (pt : HeaderPt) (pt' : Pt) (syncSwitch : Bool) : Prop where
  tc : pt'.tc = pt.tc
  timeless : pt'.timelessDecoding = pt.timelessDecoding
  unsynced : pt.timelessDecoding = true → syncSwitch = false

theorem enter_kept (cfg : SwitchConfig) (h : Kept pt s.pt s.syncSwitch) :
    Kept pt (s.enter cfg).pt (s.enter cfg).syncSwitch := by
  unfold enter
  split
  · refine ⟨h.tc, h.timeless, fun htimeless => ?_⟩
    simp [h.unsynced htimeless, h.timeless.trans htimeless]
  · exact h

theorem kept_preserved (cfg : SwitchConfig) (pt : HeaderPt) :
    Preserved cfg fun s => Kept pt s.pt s.syncSwitch := by
  apply preserved_of_runs (I := Kept pt)
  intro s s' i q timestamp out hran hs
  have henter := enter_kept cfg hs
  rw [hran.pt, hran.syncSwitch]
  exact ⟨henter.tc, henter.timeless, fun htimeless =>
    hran.runs.sync_off (henter.unsynced htimeless)⟩

theorem processAuxtraceEvent_kept {idx : UInt32} {buffer : AuxtraceBuffer (List State)}
    {r : Int × SwitchPt} (hevent : s.processAuxtraceEvent cfg idx buffer = some r) :
    r.2.pt = s.pt ∧ r.2.syncSwitch = s.syncSwitch := by
  unfold SwitchPt.processAuxtraceEvent at hevent
  split_ifs at hevent
  · cases hevent
    exact ⟨rfl, rfl⟩
  · obtain ⟨⟨err, queues⟩, -, rfl⟩ := Option.map_eq_some_iff.mp hevent
    dsimp only
    split
    · unfold feed
      split <;> exact ⟨rfl, rfl⟩
    · exact ⟨rfl, rfl⟩

theorem behind_kept (hstarts : pt.Starts s₀) (h : Behind cfg s₀ s) : Kept pt s.pt s.syncSwitch := by
  induction h with
  | start =>
    rw [hstarts.pt]
    exact ⟨rfl, rfl, fun _ => hstarts.syncSwitch⟩
  | @call s s' c _ hc ih =>
    cases c with
    | event e =>
      obtain ⟨err, hevent⟩ := hc
      exact (kept_preserved cfg pt).processEvent hevent ih
    | auxtrace idx buffer =>
      obtain ⟨err, hevent⟩ := hc
      obtain ⟨hpt, hsync⟩ := processAuxtraceEvent_kept hevent
      rw [hpt, hsync]
      exact ih
    | flush =>
      obtain ⟨err, hflush⟩ := hc
      exact (kept_preserved cfg pt).flush hflush ih
    | machine m =>
      subst hc
      exact ih

theorem behind_reachable (hstarts : pt.Starts s₀) (h : Behind cfg s₀ s) : Reachable cfg s := by
  induction h with
  | start => exact .start hstarts.priv hstarts.heap hstarts.newData
  | @call s s' c _ hc ih =>
    cases c with
    | event e =>
      obtain ⟨err, hevent⟩ := hc
      exact ih.event hevent
    | auxtrace idx buffer =>
      obtain ⟨err, hevent⟩ := hc
      exact ih.auxtrace hevent
    | flush =>
      obtain ⟨err, hflush⟩ := hc
      exact ih.flush hflush
    | machine m =>
      subst hc
      exact ih.machine m

theorem allocPeriod_eq_none {opts : SynthOpts} {tc : TscConversion} :
    allocPeriod opts tc = none ↔ opts.timedPeriod = true ∧ tc.timeMult = 0 := by
  unfold allocPeriod SynthOpts.timedPeriod nsToTicks
  cases opts.instructions with
  | false => simp
  | true =>
    by_cases hperiod : opts.period = 0
    · simp [hperiod]
    · cases opts.periodType <;> simp [hperiod]

theorem setupStops_setupQueue {i j : ℕ} (hj : j ≠ i) :
    (s.setupQueue cfg i).2.SetupStops pt j ↔ s.SetupStops pt j := by
  obtain ⟨hframed, hother⟩ := setUp_framed cfg s i
  rw [SetupStops, SetupStops, Allocates, Allocates, ptq, ptq, hother j hj, hframed.pt]

theorem exists_of_setupEachStops {todo : List ℕ} (hnodup : todo.Nodup)
    (h : SetupEachStops cfg pt todo s) : ∃ i ∈ todo, s.SetupStops pt i := by
  induction todo generalizing s with
  | nil => exact h.elim
  | cons i rest ih =>
    obtain ⟨hnotin, hnodup⟩ := List.nodup_cons.mp hnodup
    rcases h with hstops | ⟨-, h⟩
    · exact ⟨i, List.mem_cons_self, hstops⟩
    · obtain ⟨j, hj, hstops⟩ := ih hnodup h
      have hne : j ≠ i := ne_of_mem_of_not_mem hj hnotin
      exact ⟨j, List.mem_cons_of_mem i hj, (setupStops_setupQueue hne).mp hstops⟩

theorem setupEachStops_of_mem (hmem : ∀ n, cfg.realloc n = true) {todo : List ℕ}
    (hexact : s.HeapExact) (hlt : ∀ i ∈ todo, i < s.queues.nrQueues.toNat) {j : ℕ} (hj : j ∈ todo)
    (hstops : s.SetupStops pt j) : SetupEachStops cfg pt todo s := by
  induction todo generalizing s with
  | nil => exact absurd hj List.not_mem_nil
  | cons i rest ih =>
    by_cases hne : j = i
    · subst hne
      exact .inl hstops
    · have hi := hlt i List.mem_cons_self
      obtain ⟨hret, hexact', -⟩ := setupQueue_spec hmem hexact hi fun _ _ _ => trivial
      have hframed := (setUp_framed cfg s i).1
      refine .inr ⟨hret, ih hexact' ?_ ((List.mem_cons.mp hj).resolve_left hne)
        ((setupStops_setupQueue hne).mpr hstops)⟩
      intro k hk
      rw [hframed.nrQueues]
      exact hlt k (List.mem_cons_of_mem i hk)

theorem allocatesTimed_of_updateStops (h : s.UpdateStops cfg pt) : s.AllocatesTimed pt := by
  obtain ⟨hnew, hstops⟩ := h
  obtain ⟨i, hi, hallocates, hnone⟩ := exists_of_setupEachStops List.nodup_range hstops
  exact ⟨(allocPeriod_eq_none.mp hnone).1, hnew, i, List.mem_range.mp hi, hallocates⟩

theorem updateStops_of_allocatesTimed (hmem : ∀ n, cfg.realloc n = true) (hexact : s.HeapExact)
    (hzero : s.pt.tc.timeMult = 0) (h : s.AllocatesTimed pt) : s.UpdateStops cfg pt := by
  obtain ⟨hperiod, hnew, i, hi, hallocates⟩ := h
  have hstops : ({ s with queues := { s.queues with newData := false } } :
      SwitchPt).SetupStops pt i := ⟨hallocates, allocPeriod_eq_none.mpr ⟨hperiod, hzero⟩⟩
  exact ⟨hnew, setupEachStops_of_mem hmem hexact.cleared (fun _ => List.mem_range.mp)
    (List.mem_range.mpr hi) hstops⟩

variable {e : SideEvent}

theorem eventTsc_of_untimed (h : e.timed = false) (s : SwitchPt) : s.eventTsc e = 0 := by
  unfold eventTsc
  rw [if_neg]
  rintro ⟨h0, h1⟩
  simp [SideEvent.timed, h0, h1] at h

theorem timeMult_of_updateStops (hkept : Kept pt s.pt s.syncSwitch) (h : s.UpdateStops cfg pt) :
    pt.tc.timeMult = 0 := by
  obtain ⟨i, -, -, hnone⟩ := exists_of_setupEachStops List.nodup_range h.2
  rw [← hkept.tc]
  exact (allocPeriod_eq_none.mp hnone).2

theorem timeMult_of_eventStops (hkept : Kept pt s.pt s.syncSwitch) (h : s.EventStops cfg pt e) :
    pt.tc.timeMult = 0 := by
  rcases h with ⟨-, hnone⟩ | ⟨-, hnew, hstops⟩ | ⟨s₁, s₂, hs₁, hruns, -, hnone⟩
  · rw [← hkept.tc]
    exact ticks_eq_none.mp hnone
  · exact timeMult_of_updateStops hkept ⟨hnew, hstops⟩
  · have hkept₁ : Kept pt s₁.pt s₁.syncSwitch := by
      split_ifs at hs₁
      · have hupdate := (kept_preserved cfg pt).update s hkept
        rw [hs₁] at hupdate
        exact hupdate
      · cases hs₁
        exact hkept
    rw [← ((kept_preserved cfg pt).runsUpTo hruns hkept₁).tc]
    exact ticks_eq_none.mp hnone

theorem wakes_of_timeless (hkept : Kept pt s.pt s.syncSwitch)
    (htimeless : pt.timelessDecoding = true) (cpu : Int) : s.wakes cpu = false := by
  rw [wakes, hkept.unsynced htimeless, Bool.false_and]

theorem not_eventStops_of_undivided (hkept : Kept pt s.pt s.syncSwitch)
    (h : SideCall.Undivided cfg pt s (.event e)) : ¬ s.EventStops cfg pt e := by
  obtain ⟨huntimed, halloc, hlog, hsync⟩ := h
  have htsc := eventTsc_of_untimed huntimed
  rintro (⟨htimed, -⟩ | ⟨htimeless, hstops⟩ | ⟨s₁, s₂, hs₁, hruns, hfinish, -⟩)
  · rw [huntimed] at htimed
    exact absurd htimed nofun
  · have htimeless' := htimeless.resolve_left (not_not.mpr (htsc s))
    rw [hkept.timeless] at htimeless'
    exact halloc htimeless' (allocatesTimed_of_updateStops hstops)
  · cases htimeless : s.pt.timelessDecoding with
    | false =>
      simp only [htsc, htimeless, ne_eq, not_true_eq_false, decide_false, Bool.or_self,
        Bool.false_eq_true, if_false, Prod.mk.injEq, true_and] at hs₁
      subst hs₁
      simp only [RunsUpTo, htsc, htimeless, ne_eq, not_true_eq_false, Bool.false_eq_true, if_false,
        Prod.mk.injEq, true_and] at hruns
      subst hruns
      exact hfinish.elim hlog hsync
    | true =>
      have hkept₁ : Kept pt s₁.pt s₁.syncSwitch := by
        have hupdate := (kept_preserved cfg pt).update s hkept
        simp only [htimeless, Bool.or_true, if_true] at hs₁
        rw [hs₁] at hupdate
        exact hupdate
      have hkept₂ := (kept_preserved cfg pt).runsUpTo hruns hkept₁
      have hwakes := wakes_of_timeless hkept₂ (hkept.timeless.symm.trans htimeless) e.cpu
      refine hfinish.elim hlog fun hwake => ?_
      rw [hwake.2] at hwakes
      exact absurd hwakes nofun

theorem eventStops_of_divided (hmem : ∀ n, cfg.realloc n = true) (hexact : s.HeapExact)
    (hkept : Kept pt s.pt s.syncSwitch) (hzero : pt.tc.timeMult = 0)
    (h : ¬ SideCall.Undivided cfg pt s (.event e)) : s.EventStops cfg pt e := by
  have hstop {s' : SwitchPt} (hkept' : Kept pt s'.pt s'.syncSwitch) :
      perfTimeToTscOrStop e.time s'.pt.tc = none := by
    rw [hkept'.tc]
    exact ticks_of_zero hzero _
  cases htimed : e.timed with
  | true => exact .inl ⟨htimed, hstop hkept⟩
  | false =>
    have htsc := eventTsc_of_untimed htimed
    cases htimeless : s.pt.timelessDecoding with
    | false =>
      refine .inr (.inr ⟨s, s, ?_, ?_, ?_, hstop hkept⟩)
      · simp [htsc, htimeless]
      · simp [RunsUpTo, htsc, htimeless]
      · by_contra hfinish
        refine h ⟨htimed, fun hpt => ?_, fun hlog => hfinish (.inl hlog),
          fun hsync => hfinish (.inr hsync)⟩
        rw [← hkept.timeless, htimeless] at hpt
        exact absurd hpt nofun
    | true =>
      by_cases halloc : s.AllocatesTimed pt
      · exact .inr (.inl ⟨.inr htimeless,
          updateStops_of_allocatesTimed hmem hexact (by rw [hkept.tc]; exact hzero) halloc⟩)
      · have hupdate := (hexact.updateQueues_spec hmem).1
        have hkept₁ := (kept_preserved cfg pt).update s hkept
        obtain ⟨s₂, hruns⟩ : ∃ s₂, RunsUpTo cfg e (s.updateQueues cfg).2 (0, s₂) := by
          have htimeless₁ := hkept₁.timeless.trans (hkept.timeless.symm.trans htimeless)
          simp only [RunsUpTo, if_pos htimeless₁]
          split
          · exact ⟨_, rfl⟩
          · exact ⟨_, rfl⟩
        have hkept₂ := (kept_preserved cfg pt).runsUpTo hruns hkept₁
        refine .inr (.inr ⟨(s.updateQueues cfg).2, s₂, ?_, hruns, .inl ?_, hstop hkept₂⟩)
        · simp only [htimeless, Bool.or_true, if_true]
          exact Prod.ext hupdate rfl
        · by_contra hlog
          refine h ⟨htimed, fun _ => halloc, hlog, fun hsync => ?_⟩
          rw [wakes_of_timeless hkept (hkept.timeless.symm.trans htimeless)] at hsync
          exact absurd hsync.2 nofun

end SwitchPt

section

variable {cfg : SwitchConfig} {pt : HeaderPt} {s : SwitchPt} {c : SideCall}

theorem SideCall.not_stops_of_safe (hkept : SwitchPt.Kept pt s.pt s.syncSwitch)
    (h : c.Safe cfg pt s) : ¬ c.Stops cfg pt s := by
  intro hstops
  cases c with
  | event e =>
    obtain ⟨hdump, hordered, hstops⟩ := hstops
    rcases h with hne | hdump' | hordered' | hundivided
    · exact hne (SwitchPt.timeMult_of_eventStops hkept hstops)
    · exact absurd (hdump.symm.trans hdump') nofun
    · exact absurd (hordered.symm.trans hordered') nofun
    · exact SwitchPt.not_eventStops_of_undivided hkept hundivided hstops
  | flush =>
    obtain ⟨hdump, hordered, hstops⟩ := hstops
    rcases h with hne | hdump' | hordered' | hundivided
    · exact hne (SwitchPt.timeMult_of_updateStops hkept hstops)
    · exact absurd (hdump.symm.trans hdump') nofun
    · exact absurd (hordered.symm.trans hordered') nofun
    · exact hundivided (SwitchPt.allocatesTimed_of_updateStops hstops)
  | auxtrace => exact hstops
  | machine => exact hstops

theorem SideCall.stops_of_not_safe (hmem : ∀ n, cfg.realloc n = true) (hexact : s.HeapExact)
    (hkept : SwitchPt.Kept pt s.pt s.syncSwitch) (h : ¬ c.Safe cfg pt s) : c.Stops cfg pt s := by
  simp only [SideCall.Safe, not_or, not_not, Bool.not_eq_true, Bool.not_eq_false] at h
  obtain ⟨hzero, hdump, hordered, hdivided⟩ := h
  cases c with
  | event e =>
    exact ⟨hdump, hordered, SwitchPt.eventStops_of_divided hmem hexact hkept hzero hdivided⟩
  | flush =>
    have hzero' : s.pt.tc.timeMult = 0 := by rw [hkept.tc]; exact hzero
    exact ⟨hdump, hordered,
      SwitchPt.updateStops_of_allocatesTimed hmem hexact hzero' (not_not.mp hdivided)⟩
  | auxtrace => exact absurd trivial hdivided
  | machine => exact absurd trivial hdivided

end

/-- The program divides by zero nowhere that the conditions are met: not in the header, and behind
an accepted one in no call of any run. -/
theorem no_zero_divisor_iff (calls : InfoCalls) (session : PerfSession) (info : AuxtraceInfo) :
    (processAuxtraceInfo calls session info = none ↔
      info.Passes calls session ∧ ¬ info.Safe session) ∧
    ∀ (pt : HeaderPt) (env : SwitchConfig) (s₀ s : SwitchPt) (c : SideCall),
      processAuxtraceInfo calls session info = some (.ok pt) → pt.Starts s₀ →
      Behind (pt.config session env) s₀ s →
        (c.Safe (pt.config session env) pt s → ¬ c.Stops (pt.config session env) pt s) ∧
        ((∀ n, env.realloc n = true) → ¬ c.Safe (pt.config session env) pt s →
          c.Stops (pt.config session env) pt s) := by
  refine ⟨processAuxtraceInfo_eq_none calls session info, ?_⟩
  intro pt env s₀ s c _ hstarts hbehind
  have hkept := SwitchPt.behind_kept hstarts hbehind
  have hreach := SwitchPt.behind_reachable hstarts hbehind
  exact ⟨SideCall.not_stops_of_safe hkept, fun hmem =>
    SideCall.stops_of_not_safe hmem (hreach.heapExact hmem) hkept⟩

def headerOf (timeMult : UInt64) : AuxtraceInfo where
  size := 152
  priv
    | .pmuType => 8
    | .timeMult => timeMult
    | _ => 0

/-- A session with an event of the trace. -/
def ptSession (opts : Option SynthOpts) : PerfSession where
  evlist := [{ type := 8 }]
  itraceSynthOpts := opts

/-- What such a header leaves if only errors are wanted. -/
def errorsPt (timeMult ratio cbr2khz : UInt32) : HeaderPt where
  kernelStart := 0
  timelessDecoding := true
  tc := { timeMult := timeMult }
  sampleBranches := false
  pmuType := 8
  haveSchedSwitch := 0
  perCpuMmaps := false
  maxNonTurboRatio := ratio
  cbr2khz := cbr2khz
  synthOpts := { set := true, errors := true }

def errorsOnly : PerfSession := ptSession (some { set := true, errors := true })

theorem errorsOnly_accepted :
    processAuxtraceInfo {} errorsOnly (headerOf 1) = some (.ok (errorsPt 1 10 100000)) ∧
      processAuxtraceInfo {} errorsOnly (headerOf 0) = some (.ok (errorsPt 0 0 0)) := by
  constructor <;> rfl

theorem starts_empty (pt : HeaderPt) : pt.Starts { pt := pt.toPt } :=
  ⟨rfl, rfl, rfl, fun _ => rfl, fun _ h => absurd rfl h⟩

/-- A timed event behind the header of a 1 GHz clock. -/
theorem one_ghz_no_zero_divisor :
    ¬ (SideCall.event { kind := .other, time := 5 }).Stops
      ((errorsPt 1 10 100000).config errorsOnly {}) (errorsPt 1 10 100000)
      { pt := (errorsPt 1 10 100000).toPt } :=
  ((no_zero_divisor_iff {} errorsOnly (headerOf 1)).2 _ {} _ _ _ errorsOnly_accepted.1
    (starts_empty _) .start).1 (.inl (by decide))

theorem header_divides_by_zero :
    processAuxtraceInfo {} (ptSession none) (headerOf 0) = none ∧
      processAuxtraceInfo {} errorsOnly (headerOf 0) = some (.ok (errorsPt 0 0 0)) ∧
      (SideCall.event { kind := .other, time := 5 }).Stops
        ((errorsPt 0 0 0).config errorsOnly {}) (errorsPt 0 0 0) { pt := (errorsPt 0 0 0).toPt } ∧
      processAuxtraceInfo {} errorsOnly (headerOf 100) = none := by
  refine ⟨rfl, errorsOnly_accepted.2, ⟨rfl, rfl, .inl ⟨by decide, by decide⟩⟩, ?_⟩
  decide +kernel

end RPerf.Queues
