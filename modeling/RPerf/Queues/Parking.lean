import RPerf.Queues.HeapMembers

/-!
# Queues that come to wait for an event

The switch state of a queue while it is run depends on its own trace alone, as switch events
do not come in between.
-/

namespace RPerf.Queues

open Function Lib Decode

section

variable (cfg : SwitchConfig)

def SwitchConfig.switchStep (switchState : SwitchState) (state : State) : Option SwitchState :=
  if !state.type.branch then some switchState
  else if cfg.isSwitchIp state then
    match switchState with
    | .unknown | .expectingSwitchIp => some .tracing
    | _ => none
  else if state.toIp = 0 then some .notTracing
  else if switchState = .notTracing then some .unknown
  else if switchState = .unknown ∧ state.toIp = cfg.ptssIp ∧ (sampleFlags state).call then
    some .tracing
  else some switchState

def SwitchConfig.parksOver (cfg : SwitchConfig) : SwitchState → List State → Bool
  | _, [] => false
  | switchState, state :: rest =>
    match state.err with
    | some .nodata => false
    | some _ => cfg.parksOver switchState rest
    | none =>
      match cfg.switchStep switchState state with
      | none => true
      | some switchState => cfg.parksOver switchState rest

def SwitchPtq.afterSample (q : SwitchPtq) : Option SwitchState :=
  if q.haveSample then cfg.switchStep q.switchState q.state else some q.switchState

def SwitchPtq.parks (q : SwitchPtq) (outputs : List State) : Bool :=
  match q.afterSample cfg with
  | none => true
  | some switchState => cfg.parksOver switchState outputs

def SwitchPtq.willPark (q : SwitchPtq) : Bool :=
  if q.onHeap then q.parks cfg q.outputs
  else
    match gettingTimestamp q.outputs with
    | (none, _) => false
    | (some state, rest) => (q.stamped state rest).parks cfg rest

end

section

variable {cfg : SwitchConfig} {pt : Pt} {queue : SwitchQueue}

/-- What sampling does to the switch state. -/
structure Moves (cfg : SwitchConfig) (r r' : Running) (err : Int) : Prop where
  sync : r'.syncSwitch = r.syncSwitch
  timestamp : r'.ptq.timestamp = r.ptq.timestamp
  taken : r'.ptq.haveSample = false
  goes : err = 0 → r.syncSwitch = true → r.ptq.afterSample cfg = some r'.ptq.switchState
  parks : 0 < err → r'.ptq.switchState = .expectingSwitchEvent ∧ r.syncSwitch = true ∧
    r.ptq.afterSample cfg = none

theorem nextTid_le (cfg : SwitchConfig) (queue : SwitchQueue) (r : Running) :
    (r.nextTid cfg queue).1 ≤ 0 := by
  unfold Running.nextTid Machine.setCurrentTid
  split_ifs <;> simp

theorem switch_frame (cfg : SwitchConfig) (queue : SwitchQueue) (r : Running) :
    (r.switch cfg queue).2.syncSwitch = r.syncSwitch ∧
      (r.switch cfg queue).2.ptq.toPtq = r.ptq.toPtq := by
  unfold Running.switch
  dsimp only
  split
  · split
    · split <;> simp [Running.withState]
    · split <;> simp [Running.withState]
    · exact ⟨rfl, rfl⟩
  · split_ifs <;> exact ⟨rfl, rfl⟩

theorem switch_step (cfg : SwitchConfig) (queue : SwitchQueue) (r : Running)
    (hbranch : r.ptq.state.type.branch = true) :
    ((r.switch cfg queue).1 = 0 → cfg.switchStep r.ptq.switchState r.ptq.state =
        some (r.switch cfg queue).2.ptq.switchState) ∧
      (0 < (r.switch cfg queue).1 →
        (r.switch cfg queue).2.ptq.switchState = .expectingSwitchEvent ∧
          cfg.switchStep r.ptq.switchState r.ptq.state = none) := by
  have hle := nextTid_le cfg queue r
  have hkept : ¬ ((!r.ptq.state.type.branch) = true) := by simp [hbranch]
  unfold Running.switch SwitchConfig.switchStep
  dsimp only
  rw [if_neg hkept]
  by_cases hip : cfg.isSwitchIp r.ptq.state = true
  · rw [if_pos hip, if_pos hip]
    cases hss : r.ptq.switchState
    case unknown | expectingSwitchIp =>
      dsimp only
      split
      · next herr => exact ⟨fun h => absurd h herr, fun h => absurd h (not_lt.mpr hle)⟩
      · exact ⟨fun _ => rfl, fun h => absurd h (lt_irrefl _)⟩
    all_goals exact ⟨fun h => absurd h one_ne_zero, fun _ => ⟨rfl, rfl⟩⟩
  · rw [if_neg hip, if_neg hip]
    split_ifs <;> exact ⟨fun _ => rfl, fun h => absurd h (lt_irrefl _)⟩

theorem Running.sample_moves (hdeliver : ∀ i n, cfg.deliver i n ≤ 0) {r r' : Running} {err : Int}
    {xs : List Delivered} (hs : r.sample cfg pt queue = (err, r', xs)) : Moves cfg r r' err := by
  have hspec := sample_spec pt (cfg.deliver r.ptq.queueNr) r.ptq.toPtq
  have herr := sample_err pt (cfg.deliver r.ptq.queueNr) r.ptq.toPtq
  unfold Running.sample at hs
  have hstate : (Queues.sample pt (cfg.deliver r.ptq.queueNr) r.ptq.toPtq).2.1.state =
      r.ptq.state := by
    unfold Queues.sample
    split <;> rfl
  generalize Queues.sample pt (cfg.deliver r.ptq.queueNr) r.ptq.toPtq = out at hspec herr hstate hs
  obtain ⟨err₁, q, sampled⟩ := out
  dsimp only at hspec herr hstate hs
  by_cases hfails : err₁ ≠ 0
  · -- the sample has not been handed on
    rw [if_pos hfails] at hs
    cases hs
    obtain ⟨n, hn⟩ := herr hfails
    have hneg := hdeliver r.ptq.queueNr n
    exact ⟨rfl, hspec.timestamp, hspec.taken, fun h => absurd h hfails, fun h => by omega⟩
  · rw [if_neg hfails] at hs
    by_cases hswitch : (r.ptq.haveSample && r.ptq.state.type.branch && r.syncSwitch) = true
    · rw [if_pos hswitch] at hs
      simp only [Bool.and_eq_true] at hswitch
      obtain ⟨⟨hsample, hbranch⟩, hsync⟩ := hswitch
      let taken : Running := { r with ptq := { r.ptq with toPtq := q } }
      have hafter : r.ptq.afterSample cfg = cfg.switchStep taken.ptq.switchState
          taken.ptq.state := by
        rw [SwitchPtq.afterSample, if_pos hsample, show taken.ptq.state = r.ptq.state from hstate]
      obtain ⟨hgoes, hparks⟩ := switch_step cfg queue taken (hstate ▸ hbranch)
      obtain ⟨hkeeps, hptq⟩ := switch_frame cfg queue taken
      generalize hout : taken.switch cfg queue = out at hs hgoes hparks hkeeps hptq
      obtain ⟨err₂, r₂⟩ := out
      cases hs
      rw [← hafter] at hgoes hparks
      constructor
      case sync => exact hkeeps
      case timestamp => exact (congrArg Ptq.timestamp hptq).trans hspec.timestamp
      case taken => exact (congrArg Ptq.haveSample hptq).trans hspec.taken
      case goes => exact fun hzero _ => hgoes hzero
      case parks => exact fun hpos => ⟨(hparks hpos).1, hsync, (hparks hpos).2⟩
    · rw [if_neg hswitch] at hs
      cases hs
      refine ⟨rfl, hspec.timestamp, hspec.taken, fun _ hsync => ?_, fun h => absurd h (lt_irrefl _)⟩
      unfold SwitchPtq.afterSample
      split
      · next hsample =>
        have hkept : (!r.ptq.state.type.branch) = true := by simpa [hsample, hsync] using hswitch
        unfold SwitchConfig.switchStep
        rw [if_pos hkept]
      · rfl

theorem failed_frame (cfg : SwitchConfig) (pt : Pt) (queue : SwitchQueue) (r : Running)
    (state : State) :
    (r.failed cfg pt queue state).ptq.toPtq = r.ptq.toPtq ∧
      (r.failed cfg pt queue state).ptq.switchState = r.ptq.switchState ∧
      ((r.failed cfg pt queue state).syncSwitch = true → r.syncSwitch = true) := by
  unfold Running.failed
  split
  · simp
  · exact ⟨rfl, rfl, id⟩

variable {timestamp : UInt64} {outputs : List State} {r : Running} {out : SwitchRun}

theorem SwitchRuns.off (hdeliver : ∀ i n, cfg.deliver i n ≤ 0)
    (h : SwitchRuns cfg pt queue timestamp outputs r out) (hpos : 0 < out.ret) :
    out.running.ptq.ranDry = true ∨ out.running.ptq.switchState = .expectingSwitchEvent := by
  induction h with
  | stopped hs _ => exact .inr ((Running.sample_moves hdeliver hs).parks hpos).1
  | dry _ => exact .inl rfl
  | nodata _ _ => exact .inl rfl
  | lost _ _ _ _ => exact absurd hpos (not_lt.mpr (hdeliver _ _))
  | error _ _ _ _ _ ih => exact ih hpos
  | reached _ _ _ _ => exact absurd hpos (lt_irrefl _)
  | next _ _ _ ih => exact ih hpos

theorem parks_arrived (r : Running) (rest : List State) {state : State} (he : state.err = none) :
    (r.arrived cfg pt state).ptq.parks cfg rest =
      cfg.parksOver r.ptq.switchState (state :: rest) := by
  rw [SwitchConfig.parksOver, he]
  rfl

theorem parks_taken {q : SwitchPtq} (htaken : q.haveSample = false) (rest : List State) :
    q.parks cfg rest = cfg.parksOver q.switchState rest := by
  simp [SwitchPtq.parks, SwitchPtq.afterSample, htaken]

theorem SwitchRuns.unparked (hdeliver : ∀ i n, cfg.deliver i n ≤ 0)
    (h : SwitchRuns cfg pt queue timestamp outputs r out)
    (hfree : r.syncSwitch = true → r.ptq.parks cfg outputs = false) :
    (0 < out.ret → out.running.ptq.ranDry = true) ∧
      (out.running.syncSwitch = true → r.syncSwitch = true ∧
        (out.ret = 0 → out.running.ptq.parks cfg out.running.ptq.outputs = false)) := by
  have hgoes {outputs : List State} {r r' : Running} {xs : List Delivered}
      (hs : r.sample cfg pt queue = (0, r', xs))
      (hfree : r.syncSwitch = true → r.ptq.parks cfg outputs = false)
      (hsync : r'.syncSwitch = true) : r.syncSwitch = true ∧
        cfg.parksOver r'.ptq.switchState outputs = false := by
    have hmoves := Running.sample_moves hdeliver hs
    have hon := hmoves.sync.symm.trans hsync
    have hparks := hfree hon
    rw [SwitchPtq.parks, hmoves.goes rfl hon] at hparks
    exact ⟨hon, hparks⟩
  induction h with
  | stopped hs herr =>
    have hmoves := Running.sample_moves hdeliver hs
    constructor
    · intro hpos
      obtain ⟨-, hon, hnone⟩ := hmoves.parks hpos
      have hparks := hfree hon
      rw [SwitchPtq.parks, hnone] at hparks
      cases hparks
    · exact fun hsync => ⟨hmoves.sync.symm.trans hsync, fun hret => absurd hret herr⟩
  | dry hs => exact ⟨fun _ => rfl, fun hsync =>
      ⟨(hgoes hs hfree hsync).1, fun hret => absurd hret one_ne_zero⟩⟩
  | nodata hs _ => exact ⟨fun _ => rfl, fun hsync =>
      ⟨(hgoes hs hfree hsync).1, fun hret => absurd hret one_ne_zero⟩⟩
  | @lost state rest e r r' r₁ n xs hs _ hr₁ hd =>
    constructor
    · exact fun hpos => absurd hpos (not_lt.mpr (hdeliver _ _))
    · intro hsync
      subst hr₁
      have hsync' := (failed_frame cfg pt queue (r'.decoded rest false) state).2.2 hsync
      exact ⟨(hgoes hs hfree hsync').1, fun hret => absurd hret hd⟩
  | @error state rest e r r' r₁ out xs hs he hne hr₁ _ ih =>
    obtain ⟨hptq, hss, hsync₁⟩ := failed_frame cfg pt queue (r'.decoded rest false) state
    have htaken := (Running.sample_moves hdeliver hs).taken
    have hr₁' : r₁.ptq.haveSample = false ∧ r₁.ptq.switchState = r'.ptq.switchState ∧
        (r₁.syncSwitch = true → r'.syncSwitch = true) := by
      rcases hr₁ with rfl | rfl
      · exact ⟨(congrArg Ptq.haveSample hptq).trans htaken, hss, hsync₁⟩
      · exact ⟨(congrArg Ptq.haveSample hptq).trans htaken, hss, hsync₁⟩
    obtain ⟨hdry, hrest⟩ := ih fun hsync => by
      have hparks := (hgoes hs hfree (hr₁'.2.2 hsync)).2
      rw [SwitchConfig.parksOver, he] at hparks
      rw [parks_taken hr₁'.1, hr₁'.2.1]
      split at hparks
      · next heq => exact absurd (Option.some.inj heq) hne
      · exact hparks
      · next heq => cases heq
    refine ⟨hdry, fun hsync => ?_⟩
    obtain ⟨hsync₁, hzero⟩ := hrest hsync
    exact ⟨(hgoes hs hfree (hr₁'.2.2 hsync₁)).1, hzero⟩
  | @reached state rest r r' r₁ xs hs he hr₁ _ =>
    subst hr₁
    refine ⟨fun hpos => absurd hpos (lt_irrefl _), fun hsync => ?_⟩
    obtain ⟨hon, hparks⟩ := hgoes hs hfree hsync
    refine ⟨hon, fun _ => ?_⟩
    rw [parks_arrived (r'.decoded rest false) _ he]
    exact hparks
  | @next state rest r r' out xs hs he _ ih =>
    obtain ⟨hdry, hrest⟩ := ih fun hsync => by
      rw [parks_arrived (r'.decoded rest false) rest he]
      exact (hgoes hs hfree hsync).2
    refine ⟨hdry, fun hsync => ?_⟩
    obtain ⟨hsync₁, hzero⟩ := hrest hsync
    exact ⟨(hgoes hs hfree hsync₁).1, hzero⟩

def Early (state : State) : Prop :=
  state.timestamp ≠ SwitchPt.maxTimestamp ∧ state.estTimestamp ≠ SwitchPt.maxTimestamp

theorem arrived_early (r : Running) {state : State} (hstate : Early state)
    (ht : r.ptq.timestamp ≠ SwitchPt.maxTimestamp) :
    (r.arrived cfg pt state).ptq.timestamp ≠ SwitchPt.maxTimestamp := by
  unfold Running.arrived
  dsimp only
  split_ifs
  · exact hstate.2
  · exact hstate.2
  · exact hstate.1
  · exact ht

theorem SwitchRuns.early (hdeliver : ∀ i n, cfg.deliver i n ≤ 0)
    (h : SwitchRuns cfg pt queue timestamp outputs r out)
    (ht : r.ptq.timestamp ≠ SwitchPt.maxTimestamp) (hout : ∀ state ∈ outputs, Early state)
    (hret : out.ret = 0) :
    out.timestamp = out.running.ptq.timestamp ∧
      out.running.ptq.timestamp ≠ SwitchPt.maxTimestamp ∧
      ∀ state ∈ out.running.ptq.outputs, Early state := by
  induction h with
  | stopped _ herr => exact absurd hret herr
  | dry _ => exact absurd hret one_ne_zero
  | nodata _ _ => exact absurd hret one_ne_zero
  | lost _ _ _ hd => exact absurd hret hd
  | @error state rest e r r' r₁ out xs hs _ _ hr₁ _ ih =>
    have hmoves := Running.sample_moves hdeliver hs
    have hptq := (failed_frame cfg pt queue (r'.decoded rest false) state).1
    have hr₁' : r₁.ptq.timestamp = r.ptq.timestamp := by
      rcases hr₁ with rfl | rfl
      · exact (congrArg Ptq.timestamp hptq).trans hmoves.timestamp
      · exact (congrArg Ptq.timestamp hptq).trans hmoves.timestamp
    exact ih (hr₁' ▸ ht) (fun s hs => hout s (List.mem_cons_of_mem _ hs)) hret
  | @reached state rest r r' r₁ xs hs _ hr₁ _ =>
    subst hr₁
    refine ⟨rfl, ?_, fun s hs => hout s (List.mem_cons_of_mem _ hs)⟩
    apply arrived_early _ (hout state List.mem_cons_self)
    exact (Running.sample_moves hdeliver hs).timestamp ▸ ht
  | @next state rest r r' out xs hs _ _ ih =>
    apply ih _ (fun s hs => hout s (List.mem_cons_of_mem _ hs)) hret
    apply arrived_early _ (hout state List.mem_cons_self)
    exact (Running.sample_moves hdeliver hs).timestamp ▸ ht

end

end RPerf.Queues
