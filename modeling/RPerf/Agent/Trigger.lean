import RPerf.Lib.Interleaving
import Mathlib.Tactic

/-!
# Starting and stopping the recorder

`init`, `start`, `stop` and `__thread_func` of `profiler.cpp`, as an interleaving of the
calling threads with the recorder.
-/

namespace RPerf.Agent

open Lib

variable {T : Type*}

/-- Where a thread is: outside, in `start`, or in `stop`. -/
inductive Pc
  | idle
  | fetchSub | lock | setShouldStart | setTid | signal | unlock | awaitStart | awaitPoll
  | testStart | testTid | setStopRecord | clearStart | awaitStop | clearStop | exit
  deriving DecidableEq, Repr

structure Thread where
  pc : Pc := .idle
  frames : List ℕ := []
  deriving DecidableEq, Repr

/-- Where the recorder is in `__thread_func`. -/
inductive RecorderPc
  | lock | test | wait | relock | clearShouldStart | unlock | setStart | record | recording
  | setStop | done
  deriving DecidableEq, Repr

/-- What `pthread_cond_signal` does to the recorder. -/
def RecorderPc.wake : RecorderPc → RecorderPc
  | .wait => .relock
  | pc => pc

inductive Owner (T : Type*)
  | recorder
  | thread (t : T)
  deriving DecidableEq, Repr

/-- The globals of `profiler.cpp`. -/
structure Profiler (T : Type*) where
  startHappens : Bool := false
  stopHappens : Bool := false
  shouldStart : Bool := false
  tidToProfile : Option T := none
  countdownCounter : Int32
  waitMutex : Option (Owner T) := none
  recorder : RecorderPc := .lock
  calls : ℕ := 0
  decremented : List (T × ℕ) := []
  triggered : List (T × ℕ) := []
  recorded : List (Option T) := []
  stopped : List (T × ℕ) := []

inductive Act
  | start
  | stop
  | go (nearToPoll : Bool)
  deriving DecidableEq, Repr

section

variable [DecidableEq T]

/-- A step inside `start` or `stop`. -/
def proceed (t : T) (nearToPoll : Bool) (th : Thread) (g : Profiler T) :
    Option (Thread × Profiler T) :=
  let call := th.frames.headD 0
  match th.pc with
  | .idle => none
  | .fetchSub =>
    let prev := g.countdownCounter
    let g := { g with
      countdownCounter := prev - 1, decremented := g.decremented ++ [(t, call)] }
    if prev = 1 then
      some ({ th with pc := .lock }, { g with triggered := g.triggered ++ [(t, call)] })
    else some ({ th with pc := .idle }, g)
  | .lock =>
    if g.waitMutex = none then
      some ({ th with pc := .setShouldStart }, { g with waitMutex := some (.thread t) })
    else none
  | .setShouldStart => some ({ th with pc := .setTid }, { g with shouldStart := true })
  | .setTid => some ({ th with pc := .signal }, { g with tidToProfile := some t })
  | .signal => some ({ th with pc := .unlock }, { g with recorder := g.recorder.wake })
  | .unlock => some ({ th with pc := .awaitStart }, { g with waitMutex := none })
  | .awaitStart => some (if g.startHappens then { th with pc := .awaitPoll } else th, g)
  | .awaitPoll => some (if nearToPoll then { th with pc := .idle } else th, g)
  | .testStart =>
    some (if g.startHappens then { th with pc := .testTid } else ⟨.idle, th.frames.tail⟩, g)
  | .testTid =>
    some (if g.tidToProfile = some t then { th with pc := .setStopRecord }
      else ⟨.idle, th.frames.tail⟩, g)
  | .setStopRecord =>
    some ({ th with pc := .clearStart }, { g with stopped := g.stopped ++ [(t, call)] })
  | .clearStart => some ({ th with pc := .awaitStop }, { g with startHappens := false })
  | .awaitStop => some (if g.stopHappens then { th with pc := .clearStop } else th, g)
  | .clearStop => some ({ th with pc := .exit }, { g with stopHappens := false })
  | .exit => none

def act (t : T) : Act → Thread → Profiler T → Option (Thread × Profiler T)
  | .start, th, g =>
    if th.pc = .idle then some (⟨.fetchSub, g.calls :: th.frames⟩, { g with calls := g.calls + 1 })
    else none
  | .stop, th, g =>
    if th.pc = .idle ∧ th.frames ≠ [] then some ({ th with pc := .testStart }, g) else none
  | .go nearToPoll, th, g => proceed t nearToPoll th g

/-- A step of `__thread_func`. -/
def record (g : Profiler T) : Option (Profiler T) :=
  match g.recorder with
  | .lock | .relock =>
    if g.waitMutex = none then some { g with waitMutex := some .recorder, recorder := .test }
    else none
  | .test =>
    if g.shouldStart then some { g with recorder := .clearShouldStart }
    else some { g with waitMutex := none, recorder := .wait }
  | .wait => some { g with recorder := .relock }
  | .clearShouldStart => some { g with shouldStart := false, recorder := .unlock }
  | .unlock => some { g with waitMutex := none, recorder := .setStart }
  | .setStart => some { g with startHappens := true, recorder := .record }
  | .record => some { g with recorded := g.recorded ++ [g.tidToProfile], recorder := .recording }
  | .recording => some { g with recorder := .setStop }
  | .setStop => some { g with stopHappens := true, recorder := .done }
  | .done => none

def profiler : Program T Thread (Profiler T) Act Unit where
  process := act
  environment := fun _ => record

end

/-- The threads and the recorder after `init(cntr)`. -/
def init (cntr : ℕ) : Concurrent T Thread (Profiler T) :=
  ⟨fun _ => {}, { countdownCounter := Int32.ofNat cntr }⟩

def Unnested (c : Concurrent T Thread (Profiler T)) : Turn T Act Unit → Prop
  | .process t .start => ∀ call, (t, call) ∈ c.shared.triggered → call ∉ (c.locals t).frames
  | _ => True

theorem ofInt_eq_one {n k : ℕ} (hn : n < 2 ^ 31) (hk : k < 2 ^ 31) :
    Int32.ofInt (n - k) = 1 ↔ k + 1 = n := by
  constructor
  · intro h
    have hint := congrArg Int32.toInt h
    rw [Int32.toInt_ofInt_of_le (by omega) (by omega)] at hint
    have hone : (1 : Int32).toInt = 1 := by decide
    omega
  · intro h
    have hone : (n : Int) - k = 1 := by omega
    rw [hone]
    rfl

def Pc.triggering : Pc → Bool
  | .lock | .setShouldStart | .setTid | .signal | .unlock | .awaitStart | .awaitPoll => true
  | _ => false

def Pc.stopping : Pc → Bool
  | .setStopRecord | .clearStart | .awaitStop | .clearStop | .exit => true
  | _ => false

def Pc.holdsMutex : Pc → Bool
  | .setShouldStart | .setTid | .signal | .unlock => true
  | _ => false

def Pc.named : Pc → Bool
  | .signal | .unlock | .awaitStart | .awaitPoll => true
  | _ => false

def RecorderPc.holdsMutex : RecorderPc → Bool
  | .test | .clearShouldStart | .unlock => true
  | _ => false

/-- Behind the loop that waits for `should_start`. -/
def RecorderPc.started : RecorderPc → Bool
  | .clearShouldStart | .unlock | .setStart | .record | .recording | .setStop | .done => true
  | _ => false

/-- Behind the call of `do_perf_record`. -/
def RecorderPc.called : RecorderPc → Bool
  | .recording | .setStop | .done => true
  | _ => false

@[simp] theorem RecorderPc.holdsMutex_wake (pc : RecorderPc) :
    pc.wake.holdsMutex = pc.holdsMutex := by
  cases pc <;> rfl

@[simp] theorem RecorderPc.started_wake (pc : RecorderPc) : pc.wake.started = pc.started := by
  cases pc <;> rfl

@[simp] theorem RecorderPc.called_wake (pc : RecorderPc) : pc.wake.called = pc.called := by
  cases pc <;> rfl

def Profiler.TriggeredBy (g : Profiler T) (t : T) : Prop := ∃ call, g.triggered = [(t, call)]

/-- What holds of the shared variables. -/
structure Sound (n : ℕ) (g : Profiler T) : Prop where
  count : g.countdownCounter = Int32.ofInt (n - g.decremented.length)
  triggered : g.triggered = (g.decremented[n - 1]?).toList
  tid : ∀ t, g.tidToProfile = some t → g.TriggeredBy t
  should : g.shouldStart = true → g.tidToProfile ≠ none ∨ ∃ t, g.waitMutex = some (.thread t)
  mutex : g.recorder.holdsMutex = true → g.waitMutex = some .recorder
  started : g.recorder.started = true → g.tidToProfile ≠ none
  notCalled : g.recorder.called = false → g.recorded = []
  recorded : g.recorded = [] ∨ ∃ t, g.recorded = [some t] ∧ g.TriggeredBy t

/-- What holds of a thread. -/
structure Steady (t : T) (th : Thread) (g : Profiler T) : Prop where
  triggering : th.pc.triggering = true → g.TriggeredBy t
  stopping : th.pc.stopping = true → g.TriggeredBy t
  mutex : th.pc.holdsMutex = true → g.waitMutex = some (.thread t)
  named : th.pc.named = true → g.tidToProfile = some t

theorem steady_of_free {pc : Pc} (h : pc.triggering = false) (h' : pc.stopping = false)
    (t : T) (frames : List ℕ) (g : Profiler T) : Steady t ⟨pc, frames⟩ g := by
  have hmutex : pc.holdsMutex = false := by
    revert h
    cases pc <;> decide
  have hnamed : pc.named = false := by
    revert h
    cases pc <;> decide
  constructor <;> simp [h, h', hmutex, hnamed]

theorem Profiler.TriggeredBy.unique {g : Profiler T} {t t' : T} (h : g.TriggeredBy t)
    (h' : g.TriggeredBy t') : t = t' := by
  obtain ⟨call, h⟩ := h
  obtain ⟨call', h'⟩ := h'
  rw [h] at h'
  cases h'
  rfl

section

variable {n : ℕ} {g : Profiler T}

theorem Sound.triggered_nil (h : Sound n g) (hn : n < 2 ^ 31)
    (hk : g.decremented.length < 2 ^ 31) (hone : g.countdownCounter = 1) : g.triggered = [] := by
  rw [h.count, ofInt_eq_one hn hk] at hone
  rw [h.triggered, List.getElem?_eq_none (by omega)]
  rfl

theorem not_triggeredBy_of_nil (h : g.triggered = []) (t : T) : ¬ g.TriggeredBy t := by
  rintro ⟨call, htrig⟩
  cases h.symm.trans htrig

theorem Sound.fetchSub (h : Sound n g) (hpos : 1 ≤ n) (hn : n < 2 ^ 31)
    (hk : g.decremented.length < 2 ^ 31) (x : T × ℕ) :
    g.countdownCounter - 1 = Int32.ofInt (n - (g.decremented ++ [x]).length) ∧
      (if g.countdownCounter = 1 then g.triggered ++ [x] else g.triggered) =
        ((g.decremented ++ [x])[n - 1]?).toList := by
  constructor
  · have hsub : (n : Int) - (g.decremented ++ [x]).length = n - g.decremented.length - 1 := by
      rw [List.length_append, List.length_singleton]
      push_cast
      omega
    rw [hsub, Int32.ofInt_sub, h.count]
    rfl
  · rw [h.count]
    by_cases hone : g.decremented.length + 1 = n
    · rw [if_pos ((ofInt_eq_one hn hk).mpr hone), h.triggered]
      subst hone
      simp
    · rw [if_neg (mt (ofInt_eq_one hn hk).mp hone), h.triggered]
      rcases Nat.lt_or_ge (n - 1) g.decremented.length with hlt | hge
      · rw [List.getElem?_append_left hlt]
      · rw [List.getElem?_eq_none hge, List.getElem?_eq_none]
        rw [List.length_append, List.length_singleton]
        omega

end

section

variable [DecidableEq T] {n : ℕ} {g g' : Profiler T} {t : T} {th th' : Thread} {a : Act}

theorem proceed_sound (h : Sound n g) (hth : Steady t th g) (hpos : 1 ≤ n) (hn : n < 2 ^ 31)
    (hk : g.decremented.length < 2 ^ 31) {near : Bool}
    (hact : proceed t near th g = some (th', g')) : Sound n g' ∧ Steady t th' g' := by
  have htrig := hth.triggering
  have hstop := hth.stopping
  have hmutex := hth.mutex
  have hnamed := hth.named
  unfold proceed at hact
  cases hpc : th.pc <;> rw [hpc] at htrig hstop hmutex hnamed <;> simp only [hpc] at hact
  case idle | exit => cases hact
  case fetchSub =>
    obtain ⟨hcount, htriggered⟩ := h.fetchSub hpos hn hk (t, th.frames.headD 0)
    split at hact
    · next hone =>
      have hnil := h.triggered_nil hn hk hone
      have hnobody := not_triggeredBy_of_nil hnil
      cases hact
      rw [if_pos hone] at htriggered
      refine ⟨{ h with count := hcount, triggered := htriggered, tid := ?_, recorded := ?_ }, ?_⟩
      · intro t' htid
        exact absurd (h.tid t' htid) (hnobody t')
      · rcases h.recorded with hrec | ⟨t', -, htrig'⟩
        · exact .inl hrec
        · exact absurd htrig' (hnobody t')
      · refine ⟨fun _ => ⟨th.frames.headD 0, ?_⟩, nofun, nofun, nofun⟩
        simp [hnil]
    · next hone =>
      cases hact
      rw [if_neg hone] at htriggered
      exact ⟨{ h with count := hcount, triggered := htriggered }, steady_of_free rfl rfl t _ _⟩
  case lock =>
    split at hact
    · next hfree =>
      cases hact
      refine ⟨{ h with should := fun _ => .inr ⟨t, rfl⟩, mutex := ?_ }, ?_⟩
      · intro hrec
        cases hfree.symm.trans (h.mutex hrec)
      · exact ⟨fun _ => htrig rfl, nofun, fun _ => rfl, nofun⟩
    · cases hact
  case setShouldStart =>
    cases hact
    refine ⟨{ h with should := fun _ => .inr ⟨t, hmutex rfl⟩ }, ?_⟩
    exact ⟨fun _ => htrig rfl, nofun, fun _ => hmutex rfl, nofun⟩
  case setTid =>
    cases hact
    refine ⟨{ h with tid := ?_, should := fun _ => .inl nofun, started := fun _ => nofun }, ?_⟩
    · rintro t' ⟨⟩
      exact htrig rfl
    · exact ⟨fun _ => htrig rfl, nofun, fun _ => hmutex rfl, fun _ => rfl⟩
  case signal =>
    cases hact
    refine ⟨{ h with mutex := ?_, started := ?_, notCalled := ?_ }, ?_⟩
    · simpa using h.mutex
    · simpa using h.started
    · simpa using h.notCalled
    · exact ⟨fun _ => htrig rfl, nofun, fun _ => hmutex rfl, fun _ => hnamed rfl⟩
  case unlock =>
    cases hact
    refine ⟨{ h with should := ?_, mutex := ?_ }, ?_⟩
    · intro _
      exact .inl (by simp [hnamed rfl])
    · intro hrec
      cases (hmutex rfl).symm.trans (h.mutex hrec)
    · exact ⟨fun _ => htrig rfl, nofun, nofun, fun _ => hnamed rfl⟩
  case awaitStart =>
    cases hact
    refine ⟨h, ?_⟩
    split
    · exact ⟨fun _ => htrig rfl, nofun, nofun, fun _ => hnamed rfl⟩
    · exact hth
  case awaitPoll =>
    cases hact
    refine ⟨h, ?_⟩
    split
    · exact steady_of_free rfl rfl t _ _
    · exact hth
  case testStart =>
    cases hact
    refine ⟨h, ?_⟩
    split <;> exact steady_of_free rfl rfl t _ _
  case testTid =>
    cases hact
    refine ⟨h, ?_⟩
    split
    · next htid => exact ⟨nofun, fun _ => h.tid t htid, nofun, nofun⟩
    · exact steady_of_free rfl rfl t _ _
  case setStopRecord =>
    cases hact
    exact ⟨{ h with }, nofun, fun _ => hstop rfl, nofun, nofun⟩
  case clearStart =>
    cases hact
    exact ⟨{ h with }, nofun, fun _ => hstop rfl, nofun, nofun⟩
  case awaitStop =>
    cases hact
    refine ⟨h, ?_⟩
    split
    · exact ⟨nofun, fun _ => hstop rfl, nofun, nofun⟩
    · exact hth
  case clearStop =>
    cases hact
    exact ⟨{ h with }, nofun, fun _ => hstop rfl, nofun, nofun⟩

theorem act_sound (h : Sound n g) (hth : Steady t th g) (hpos : 1 ≤ n) (hn : n < 2 ^ 31)
    (hk : g.decremented.length < 2 ^ 31) (hact : act t a th g = some (th', g')) :
    Sound n g' ∧ Steady t th' g' := by
  cases a with
  | start =>
    simp only [act] at hact
    split at hact <;> cases hact
    exact ⟨{ h with }, steady_of_free rfl rfl t _ _⟩
  | stop =>
    simp only [act] at hact
    split at hact <;> cases hact
    exact ⟨h, steady_of_free rfl rfl t _ _⟩
  | go near => exact proceed_sound h hth hpos hn hk hact

structure Touches (t : T) (th : Thread) (g g' : Profiler T) : Prop where
  triggered : g'.triggered = g.triggered ∨
    g.countdownCounter = 1 ∧ g'.triggered = g.triggered ++ [(t, th.frames.headD 0)]
  tid : g'.tidToProfile = g.tidToProfile ∨ th.pc = .setTid
  mutex : g'.waitMutex = g.waitMutex ∨ g.waitMutex = none ∨ th.pc = .unlock
  start : g'.startHappens = g.startHappens ∨ th.pc = .clearStart
  stopped : g'.stopped = g.stopped ∨
    th.pc = .setStopRecord ∧ g'.stopped = g.stopped ++ [(t, th.frames.headD 0)]

theorem act_touches (hact : act t a th g = some (th', g')) : Touches t th g g' := by
  cases a with
  | start =>
    simp only [act] at hact
    split at hact <;> cases hact
    exact ⟨.inl rfl, .inl rfl, .inl rfl, .inl rfl, .inl rfl⟩
  | stop =>
    simp only [act] at hact
    split at hact <;> cases hact
    exact ⟨.inl rfl, .inl rfl, .inl rfl, .inl rfl, .inl rfl⟩
  | go near =>
    simp only [act, proceed] at hact
    cases hpc : th.pc <;> simp only [hpc] at hact
    case idle | exit => cases hact
    case fetchSub =>
      split at hact <;> cases hact
      · next hone => exact ⟨.inr ⟨hone, rfl⟩, .inl rfl, .inl rfl, .inl rfl, .inl rfl⟩
      · exact ⟨.inl rfl, .inl rfl, .inl rfl, .inl rfl, .inl rfl⟩
    case lock =>
      split at hact <;> cases hact
      next hfree => exact ⟨.inl rfl, .inl rfl, .inr (.inl hfree), .inl rfl, .inl rfl⟩
    case setTid =>
      cases hact
      exact ⟨.inl rfl, .inr hpc, .inl rfl, .inl rfl, .inl rfl⟩
    case unlock =>
      cases hact
      exact ⟨.inl rfl, .inl rfl, .inr (.inr hpc), .inl rfl, .inl rfl⟩
    case setStopRecord =>
      cases hact
      exact ⟨.inl rfl, .inl rfl, .inl rfl, .inl rfl, .inr ⟨hpc, rfl⟩⟩
    case clearStart =>
      cases hact
      exact ⟨.inl rfl, .inl rfl, .inl rfl, .inr hpc, .inl rfl⟩
    all_goals
      cases hact
      exact ⟨.inl rfl, .inl rfl, .inl rfl, .inl rfl, .inl rfl⟩

end

section

variable {n : ℕ} {g g' : Profiler T} {t : T} {th : Thread}

theorem Pc.triggering_of_named {pc : Pc} (h : pc.named = true) : pc.triggering = true := by
  revert h
  cases pc <;> decide

theorem Touches.steady (ht : Touches t th g g') (h : Sound n g) (hth : Steady t th g)
    (hn : n < 2 ^ 31) (hk : g.decremented.length < 2 ^ 31) {j : T} {other : Thread}
    (hj : j ≠ t) (hother : Steady j other g) : Steady j other g' := by
  have htrig : g.TriggeredBy j → g'.TriggeredBy j := by
    rintro ⟨call, hcall⟩
    rcases ht.triggered with heq | ⟨hone, -⟩
    · exact ⟨call, heq.trans hcall⟩
    · cases (h.triggered_nil hn hk hone).symm.trans hcall
  constructor
  case triggering => exact fun hpc => htrig (hother.triggering hpc)
  case stopping => exact fun hpc => htrig (hother.stopping hpc)
  case mutex =>
    intro hpc
    have howner := hother.mutex hpc
    rcases ht.mutex with heq | hfree | hunlock
    · exact heq.trans howner
    · cases hfree.symm.trans howner
    · have howner' := hth.mutex (by rw [hunlock]; rfl)
      cases howner'.symm.trans howner
      exact absurd rfl hj
  case named =>
    intro hpc
    rcases ht.tid with heq | hset
    · exact heq.trans (hother.named hpc)
    · have hby := hth.triggering (by rw [hset]; rfl)
      exact absurd ((hother.triggering (Pc.triggering_of_named hpc)).unique hby) hj

theorem Steady.of_recorder (h : Steady t th g) (htrig : g'.triggered = g.triggered)
    (htid : g'.tidToProfile = g.tidToProfile)
    (hmutex : g'.waitMutex = g.waitMutex ∨ g.waitMutex = none ∨ g.waitMutex = some .recorder) :
    Steady t th g' := by
  have hby : g.TriggeredBy t → g'.TriggeredBy t := fun ⟨call, hcall⟩ => ⟨call, htrig.trans hcall⟩
  constructor
  case triggering => exact fun hpc => hby (h.triggering hpc)
  case stopping => exact fun hpc => hby (h.stopping hpc)
  case mutex =>
    intro hpc
    have howner := h.mutex hpc
    rcases hmutex with heq | hfree | hrec
    · exact heq.trans howner
    · cases hfree.symm.trans howner
    · cases hrec.symm.trans howner
  case named => exact fun hpc => htid.trans (h.named hpc)

theorem record_sound (h : Sound n g) (hrec : record g = some g') :
    Sound n g' ∧ ∀ j other, Steady j other g → Steady j other g' := by
  have hmutex := h.mutex
  have hstarted := h.started
  have hcalled := h.notCalled
  unfold record at hrec
  cases hpc : g.recorder <;> rw [hpc] at hmutex hstarted hcalled <;> simp only [hpc] at hrec
  case lock | relock =>
    split at hrec <;> cases hrec
    next hfree =>
    refine ⟨{ h with
      should := ?_, mutex := fun _ => rfl, started := nofun,
      notCalled := fun _ => hcalled rfl }, ?_⟩
    · intro hs
      rcases h.should hs with htid | ⟨t, howner⟩
      · exact .inl htid
      · cases hfree.symm.trans howner
    · exact fun j other hj => hj.of_recorder rfl rfl (.inr (.inl hfree))
  case test =>
    have howner := hmutex rfl
    split at hrec <;> cases hrec
    · next hs =>
      refine ⟨{ h with mutex := fun _ => howner, started := ?_, notCalled := fun _ => hcalled rfl },
        fun j other hj => hj.of_recorder rfl rfl (.inl rfl)⟩
      intro _
      rcases h.should hs with htid | ⟨t, howner'⟩
      · exact htid
      · cases howner.symm.trans howner'
    · next hs =>
      exact ⟨{ h with
        should := fun h' => absurd h' hs, mutex := nofun, started := nofun,
        notCalled := fun _ => hcalled rfl },
        fun j other hj => hj.of_recorder rfl rfl (.inr (.inr howner))⟩
  case wait =>
    cases hrec
    exact ⟨{ h with mutex := nofun, started := nofun, notCalled := fun _ => hcalled rfl },
      fun j other hj => hj.of_recorder rfl rfl (.inl rfl)⟩
  case clearShouldStart =>
    cases hrec
    exact ⟨{ h with
      should := nofun, mutex := fun _ => hmutex rfl, started := fun _ => hstarted rfl,
      notCalled := fun _ => hcalled rfl },
      fun j other hj => hj.of_recorder rfl rfl (.inl rfl)⟩
  case unlock =>
    cases hrec
    exact ⟨{ h with
      should := fun _ => .inl (hstarted rfl), mutex := nofun, started := fun _ => hstarted rfl,
      notCalled := fun _ => hcalled rfl },
      fun j other hj => hj.of_recorder rfl rfl (.inr (.inr (hmutex rfl)))⟩
  case setStart =>
    cases hrec
    exact ⟨{ h with
      mutex := nofun, started := fun _ => hstarted rfl, notCalled := fun _ => hcalled rfl },
      fun j other hj => hj.of_recorder rfl rfl (.inl rfl)⟩
  case record =>
    cases hrec
    refine ⟨{ h with
      mutex := nofun, started := fun _ => hstarted rfl, notCalled := nofun, recorded := ?_ },
      fun j other hj => hj.of_recorder rfl rfl (.inl rfl)⟩
    obtain ⟨t, htid⟩ := Option.ne_none_iff_exists'.mp (hstarted rfl)
    exact .inr ⟨t, by simp [hcalled rfl, htid], h.tid t htid⟩
  case recording | setStop =>
    cases hrec
    exact ⟨{ h with mutex := nofun, started := fun _ => hstarted rfl, notCalled := nofun },
      fun j other hj => hj.of_recorder rfl rfl (.inl rfl)⟩
  case done => cases hrec

def Pc.waiting : Pc → Bool
  | .lock | .setShouldStart | .setTid | .signal | .unlock | .awaitStart => true
  | _ => false

/-- Behind that, and before `start_happens` is cleared. -/
def Pc.inWindow : Pc → Bool
  | .awaitPoll | .idle | .testStart | .testTid | .setStopRecord | .clearStart => true
  | _ => false

def Pc.ended : Pc → Bool
  | .awaitStop | .clearStop | .exit => true
  | _ => false

def Phase (t : T) (pc : Pc) (g : Profiler T) : Prop :=
  pc.waiting = true ∨
    pc.inWindow = true ∧ g.startHappens = true ∧ g.tidToProfile = some t ∨ pc.ended = true

theorem Phase.opened {pc : Pc} (h : Phase t pc g) (hpc : pc.inWindow = true) :
    g.startHappens = true ∧ g.tidToProfile = some t := by
  rcases h with hwait | ⟨-, hopen⟩ | hend
  · cases pc <;> first | cases hwait; done | cases hpc
  · exact hopen
  · cases pc <;> first | cases hend; done | cases hpc

structure Window (t : T) (th : Thread) (g : Profiler T) : Prop where
  inside : th.pc ≠ .idle → th.frames ≠ []
  innermost : ∀ call, g.triggered = [(t, call)] → th.frames.head? = some call
  phase : g.TriggeredBy t → Phase t th.pc g

theorem window_of_not (h : ¬ g.TriggeredBy t) (hin : th.pc ≠ .idle → th.frames ≠ []) :
    Window t th g :=
  ⟨hin, fun call hcall => absurd ⟨call, hcall⟩ h, fun hby => absurd hby h⟩

theorem Window.goOn (hw : Window t th g) {pc : Pc} (hin : th.frames ≠ [])
    (htrig : g'.triggered = g.triggered) (hphase : g.TriggeredBy t → Phase t pc g') :
    Window t { th with pc := pc } g' := by
  refine ⟨fun _ => hin, ?_, ?_⟩
  · intro call hcall
    exact hw.innermost call (htrig ▸ hcall)
  · rintro ⟨call, hcall⟩
    exact hphase ⟨call, htrig ▸ hcall⟩

def StopsMatch (g : Profiler T) : Prop := ∀ x ∈ g.stopped, g.triggered = [x]

theorem Touches.window (ht : Touches t th g g') (h : Sound n g) (hth : Steady t th g)
    (hn : n < 2 ^ 31) (hk : g.decremented.length < 2 ^ 31) {j : T} {other : Thread}
    (hj : j ≠ t) (hw : Window j other g) : Window j other g' := by
  have hback : ∀ call, g'.triggered = [(j, call)] → g.triggered = [(j, call)] := by
    intro call hcall
    rcases ht.triggered with heq | ⟨hone, happ⟩
    · exact heq ▸ hcall
    · rw [h.triggered_nil hn hk hone] at happ
      cases happ.symm.trans hcall
      exact absurd rfl hj
  refine ⟨hw.inside, fun call hcall => hw.innermost call (hback call hcall), ?_⟩
  rintro ⟨call, hcall⟩
  have hby : g.TriggeredBy j := ⟨call, hback call hcall⟩
  have hstart : g'.startHappens = g.startHappens := by
    rcases ht.start with heq | hclear
    · exact heq
    · exact absurd (hby.unique (hth.stopping (by rw [hclear]; rfl))) hj
  have htid : g'.tidToProfile = g.tidToProfile := by
    rcases ht.tid with heq | hset
    · exact heq
    · exact absurd (hby.unique (hth.triggering (by rw [hset]; rfl))) hj
  unfold Phase
  rw [hstart, htid]
  exact hw.phase hby

theorem record_touches (hrec : record g = some g') :
    g'.triggered = g.triggered ∧ g'.tidToProfile = g.tidToProfile ∧ g'.stopped = g.stopped ∧
      g'.decremented = g.decremented ∧ (g.startHappens = true → g'.startHappens = true) := by
  unfold record at hrec
  cases hpc : g.recorder <;> simp only [hpc] at hrec
  case lock | relock | test =>
    split at hrec <;> cases hrec
    all_goals exact ⟨rfl, rfl, rfl, rfl, id⟩
  case done => cases hrec
  case setStart =>
    cases hrec
    exact ⟨rfl, rfl, rfl, rfl, fun _ => rfl⟩
  all_goals
    cases hrec
    exact ⟨rfl, rfl, rfl, rfl, id⟩

theorem record_window (hrec : record g = some g') :
    (StopsMatch g → StopsMatch g') ∧ ∀ j other, Window j other g → Window j other g' := by
  obtain ⟨htrig, htid, hstop, -, hstart⟩ := record_touches hrec
  constructor
  · intro h x hx
    rw [htrig]
    exact h x (hstop ▸ hx)
  · intro j other hw
    refine ⟨hw.inside, fun call hcall => hw.innermost call (htrig ▸ hcall), ?_⟩
    rintro ⟨call, hcall⟩
    rcases hw.phase ⟨call, htrig ▸ hcall⟩ with hwait | ⟨hopen, hs, ht⟩ | hend
    · exact .inl hwait
    · exact .inr (.inl ⟨hopen, hstart hs, htid ▸ ht⟩)
    · exact .inr (.inr hend)

theorem sound_init (n : ℕ) :
    Asserts (Sound n) Steady (init n : Concurrent T Thread (Profiler T)) := by
  refine ⟨⟨?_, rfl, nofun, nofun, nofun, nofun, fun _ => rfl, .inl rfl⟩, ?_⟩
  · simp [init, Int32.ofInt, Int32.ofNat]
  · intro t
    exact steady_of_free rfl rfl t [] _

end

section

variable [DecidableEq T] {n : ℕ} {g g' : Profiler T} {t : T} {th th' : Thread} {a : Act}

theorem proceed_window (h : Sound n g) (hth : Steady t th g) (hw : Window t th g)
    (hstops : StopsMatch g) (hn : n < 2 ^ 31) (hk : g.decremented.length < 2 ^ 31) {near : Bool}
    (hact : proceed t near th g = some (th', g')) : StopsMatch g' ∧ Window t th' g' := by
  have hphase := hw.phase
  have hin := hw.inside
  have hopened := fun hby => (hphase hby).opened
  unfold proceed at hact
  cases hpc : th.pc <;> rw [hpc] at hphase hin hopened <;> simp only [hpc] at hact
  case idle | exit => cases hact
  case fetchSub =>
    have hnot : ¬ g.TriggeredBy t := by
      intro hby
      rcases hphase hby with h | ⟨h, -⟩ | h <;> cases h
    have hopen := hin nofun
    split at hact <;> cases hact
    · next hone =>
      have hnil := h.triggered_nil hn hk hone
      have hnone : ∀ x, x ∉ g.stopped := by
        intro x hx
        cases hnil.symm.trans (hstops x hx)
      refine ⟨fun x hx => absurd hx (hnone x), fun _ => hopen, ?_, fun _ => .inl rfl⟩
      intro call hcall
      simp only [hnil, List.nil_append, List.cons.injEq, Prod.mk.injEq, true_and, and_true] at hcall
      rw [← hcall]
      obtain ⟨x, l, hl⟩ := List.exists_cons_of_ne_nil hopen
      simp [hl]
    · exact ⟨hstops, window_of_not hnot nofun⟩
  case lock =>
    split at hact <;> cases hact
    exact ⟨hstops, hw.goOn (hin nofun) rfl fun _ => .inl rfl⟩
  case setShouldStart | setTid | signal | unlock =>
    cases hact
    exact ⟨hstops, hw.goOn (hin nofun) rfl fun _ => .inl rfl⟩
  case awaitStart =>
    cases hact
    refine ⟨hstops, ?_⟩
    split
    · next hstart =>
      have hnamed := hth.named (by rw [hpc]; rfl)
      exact hw.goOn (hin nofun) rfl fun _ => .inr (.inl ⟨rfl, hstart, hnamed⟩)
    · exact hw
  case awaitPoll =>
    cases hact
    refine ⟨hstops, ?_⟩
    split
    · exact hw.goOn (hin nofun) rfl fun hby => .inr (.inl ⟨rfl, hopened hby rfl⟩)
    · exact hw
  case testStart =>
    cases hact
    refine ⟨hstops, ?_⟩
    split
    · exact hw.goOn (hin nofun) rfl fun hby => .inr (.inl ⟨rfl, hopened hby rfl⟩)
    · next hno => exact window_of_not (fun hby => hno (hopened hby rfl).1) nofun
  case testTid =>
    cases hact
    refine ⟨hstops, ?_⟩
    split
    · exact hw.goOn (hin nofun) rfl fun hby => .inr (.inl ⟨rfl, hopened hby rfl⟩)
    · next hno => exact window_of_not (fun hby => hno (hopened hby rfl).2) nofun
  case setStopRecord =>
    cases hact
    obtain ⟨call, hcall⟩ := hth.stopping (by rw [hpc]; rfl)
    have hhead : th.frames.headD 0 = call := by
      rw [List.headD_eq_head?_getD, hw.innermost call hcall]
      rfl
    refine ⟨?_, hw.goOn (hin nofun) rfl fun hby => .inr (.inl ⟨rfl, hopened hby rfl⟩)⟩
    intro x hx
    rcases List.mem_append.mp hx with hx | hx
    · exact hstops x hx
    · rw [List.mem_singleton.mp hx, hhead]
      exact hcall
  case clearStart | clearStop =>
    cases hact
    exact ⟨hstops, hw.goOn (hin nofun) rfl fun _ => .inr (.inr rfl)⟩
  case awaitStop =>
    cases hact
    refine ⟨hstops, ?_⟩
    split
    · exact hw.goOn (hin nofun) rfl fun _ => .inr (.inr rfl)
    · exact hw

theorem act_window (h : Sound n g) (hth : Steady t th g) (hw : Window t th g)
    (hstops : StopsMatch g) (hn : n < 2 ^ 31) (hk : g.decremented.length < 2 ^ 31)
    (hnest : a = .start → ∀ call, (t, call) ∈ g.triggered → call ∉ th.frames)
    (hact : act t a th g = some (th', g')) : StopsMatch g' ∧ Window t th' g' := by
  cases a with
  | start =>
    simp only [act] at hact
    split at hact <;> cases hact
    have hnot : ¬ g.TriggeredBy t := by
      rintro ⟨call, hcall⟩
      apply hnest rfl call
      · simp [hcall]
      · exact List.mem_of_head? (hw.innermost call hcall)
    exact ⟨hstops, window_of_not hnot fun _ => List.cons_ne_nil _ _⟩
  | stop =>
    simp only [act] at hact
    split at hact <;> cases hact
    next hidle =>
    refine ⟨hstops, hw.goOn hidle.2 rfl fun hby => .inr (.inl ⟨rfl, ?_⟩)⟩
    exact (hw.phase hby).opened (by rw [hidle.1]; rfl)
  | go near => exact proceed_window h hth hw hstops hn hk hact

theorem act_decremented (hact : act t a th g = some (th', g')) :
    g.decremented.length ≤ g'.decremented.length := by
  cases a with
  | start =>
    simp only [act] at hact
    split at hact <;> cases hact
    exact le_rfl
  | stop =>
    simp only [act] at hact
    split at hact <;> cases hact
    exact le_rfl
  | go near =>
    simp only [act, proceed] at hact
    cases hpc : th.pc <;> simp only [hpc] at hact
    case idle | exit => cases hact
    case fetchSub => split at hact <;> cases hact <;> simp
    case lock =>
      split at hact <;> cases hact
      exact le_rfl
    all_goals
      cases hact
      exact le_rfl

end

section

variable [DecidableEq T] {n : ℕ} {turns : List (Turn T Act Unit)}
  {c : Concurrent T Thread (Profiler T)}

theorem step_decremented {c c' : Concurrent T Thread (Profiler T)} {turn : Turn T Act Unit}
    (hstep : profiler.step c turn = some c') :
    c.shared.decremented.length ≤ c'.shared.decremented.length := by
  cases turn with
  | process t a =>
    obtain ⟨⟨th, g⟩, hact, rfl⟩ := Option.map_eq_some_iff.mp hstep
    exact act_decremented hact
  | environment =>
    obtain ⟨g, hrec, rfl⟩ := Option.map_eq_some_iff.mp hstep
    exact (congrArg List.length (record_touches hrec).2.2.2.1).ge

theorem run_sound (hpos : 1 ≤ n) (hn : n < 2 ^ 31) (hrun : profiler.run (init n) turns = some c)
    (hfew : c.shared.decremented.length < 2 ^ 31) : Asserts (Sound n) Steady c := by
  have halong := Program.along_of_monotone (fun c => c.shared.decremented.length)
    (fun _ _ _ => step_decremented) hrun hfew
  apply Program.run_asserts _ _ _ halong hrun (sound_init n)
  · intro c t a th g hk h hact
    exact act_sound h.shared (h.locals t) hpos hn hk hact
  · intro c t a th g hk h hact j hj
    exact (act_touches hact).steady h.shared (h.locals t) hn hk hj (h.locals j)
  · intro c b g hk h hrec
    obtain ⟨hsound, hsteady⟩ := record_sound h.shared hrec
    exact ⟨hsound, fun j => hsteady j _ (h.locals j)⟩

theorem run_stopsMatch (hpos : 1 ≤ n) (hn : n < 2 ^ 31)
    (hrun : profiler.run (init n) turns = some c) (hfew : c.shared.decremented.length < 2 ^ 31)
    (hnest : profiler.Along Unnested (init n) turns) : StopsMatch c.shared := by
  have halong := (Program.along_of_monotone (fun c => c.shared.decremented.length)
    (fun _ _ _ => step_decremented) hrun hfew).and hnest
  have hinit : Asserts (fun g => Sound n g ∧ StopsMatch g)
    (fun t th g => Steady t th g ∧ Window t th g)
      (init n : Concurrent T Thread (Profiler T)) := by
    have h := sound_init (T := T) n
    refine ⟨⟨h.shared, nofun⟩, fun t => ⟨h.locals t, ?_⟩⟩
    exact window_of_not (not_triggeredBy_of_nil rfl t) fun hne => absurd rfl hne
  apply (Program.run_asserts _ _ _ halong hrun hinit).shared.2
  · intro c t a th g hP h hact
    obtain ⟨hk, hallowed⟩ := hP
    obtain ⟨hsteady, hwindow⟩ := h.locals t
    obtain ⟨hsound', hsteady'⟩ := act_sound h.shared.1 hsteady hpos hn hk hact
    have hnest : a = .start → ∀ call, (t, call) ∈ c.shared.triggered →
        call ∉ (c.locals t).frames := by
      rintro rfl
      exact hallowed
    obtain ⟨hstops', hwindow'⟩ := act_window h.shared.1 hsteady hwindow h.shared.2 hn hk hnest hact
    exact ⟨⟨hsound', hstops'⟩, hsteady', hwindow'⟩
  · intro c t a th g hP h hact j hj
    have htouch := act_touches hact
    exact ⟨htouch.steady h.shared.1 (h.locals t).1 hn hP.1 hj (h.locals j).1,
      htouch.window h.shared.1 (h.locals t).1 hn hP.1 hj (h.locals j).2⟩
  · intro c b g _ h hrec
    obtain ⟨hsound, hsteady⟩ := record_sound h.shared.1 hrec
    obtain ⟨hstops, hwindow⟩ := record_window hrec
    exact ⟨⟨hsound, hstops h.shared.2⟩,
      fun j => ⟨hsteady j _ (h.locals j).1, hwindow j _ (h.locals j).2⟩⟩

/-- The `n`-th call to decrement the countdown takes the trigger branch and no other, and the
recorder is called at most once, with the thread of that call. -/
theorem run_triggers_once (hpos : 1 ≤ n) (hn : n < 2 ^ 31)
    (hrun : profiler.run (init n) turns = some c) (hfew : c.shared.decremented.length < 2 ^ 31) :
    c.shared.triggered = (c.shared.decremented[n - 1]?).toList ∧
      (c.shared.recorded = [] ∨
        ∃ t call, c.shared.recorded = [some t] ∧ c.shared.triggered = [(t, call)]) ∧
      (profiler.Along Unnested (init n) turns →
        ∀ x ∈ c.shared.stopped, c.shared.triggered = [x]) := by
  have hsound := (run_sound hpos hn hrun hfew).shared
  refine ⟨hsound.triggered, ?_, run_stopsMatch hpos hn hrun hfew⟩
  rcases hsound.recorded with hnone | ⟨t, hrec, call, hcall⟩
  · exact .inl hnone
  · exact .inr ⟨t, call, hrec, hcall⟩

end

/-- A thread triggers the recorder, which starts to record. -/
def demoTrigger : List (Turn ℕ Act Unit) :=
  .process 0 .start :: List.replicate 6 (.process 0 (.go true)) ++
    List.replicate 6 (.environment ()) ++ List.replicate 2 (.process 0 (.go true))

/-- It stops the recorder. -/
def demoStop : List (Turn ℕ Act Unit) :=
  .process 0 .stop :: List.replicate 3 (.process 0 (.go true))

/-- In between it has called the method again, and returned from it. -/
def demoNested : List (Turn ℕ Act Unit) :=
  demoTrigger ++ [.process 0 .start, .process 0 (.go true)] ++ demoStop

/-- The call of `stop` that matches the inner `start` stops the recorder. -/
theorem demoNested_stops_inner :
    (profiler.run (init 1) demoNested).map (fun c => (c.shared.triggered, c.shared.stopped)) =
      some ([(0, 0)], [(0, 1)]) := by
  decide +kernel

theorem demoStop_matches :
    ∃ c, profiler.run (init 1) (demoTrigger ++ demoStop) = some c ∧
      c.shared.triggered = [(0, 0)] ∧ c.shared.recorded = [some 0] ∧
      c.shared.stopped = [(0, 0)] ∧ ∀ x ∈ c.shared.stopped, c.shared.triggered = [x] := by
  have hnest : profiler.Along Unnested (init 1) (demoTrigger ++ demoStop) := by
    refine ⟨nofun, fun c _ => Program.along_of_forall ?_ c⟩
    intro turn hturn c
    fin_cases hturn <;> trivial
  have hrun : profiler.run (init 1) (demoTrigger ++ demoStop) =
      some ((profiler.run (init 1) (demoTrigger ++ demoStop)).get (by decide +kernel)) := by simp
  have hfew : ((profiler.run (init 1) (demoTrigger ++ demoStop)).get
      (by decide +kernel)).shared.decremented.length < 2 ^ 31 := by decide +kernel
  refine ⟨_, hrun, by decide +kernel, by decide +kernel, by decide +kernel, ?_⟩
  exact (run_triggers_once le_rfl (by norm_num) hrun hfew).2.2 hnest

end RPerf.Agent
