import RPerf.Agent.SelfTime
import RPerf.Decode.State
import RPerf.Lib.Words

/-!
# One queue of the trace

`intel_pt_sample` and `intel_pt_run_decoder` of `intel-pt.c`, and the loop of
`intel_pt_setup_queue` that looks for the first timestamp, with `sync_switch` off.
-/

namespace RPerf.Queues

open Decode

/-- `struct perf_tsc_conversion`. -/
structure TscConversion where
  timeShift : UInt16 := 0
  timeMult : UInt32 := 1
  timeZero : UInt64 := 0
  deriving DecidableEq, Repr

/-- `tsc_to_perf_time`. -/
def tscToPerfTime (cyc : UInt64) (tc : TscConversion) : UInt64 :=
  let quot := cyc >>> tc.timeShift.toUInt64
  let rem := cyc &&& ((1 <<< tc.timeShift.toUInt64) - 1)
  tc.timeZero + quot * tc.timeMult.toUInt64 +
    ((rem * tc.timeMult.toUInt64) >>> tc.timeShift.toUInt64)

/-- The fields of `struct intel_pt` that the functions below read. -/
structure Pt where
  kernelStart : UInt64 := 0x8000000000000000
  timelessDecoding : Bool := false
  tc : TscConversion := {}
  samplePwrEvents : Bool := false
  sampleInstructions : Bool := false
  sampleTransactions : Bool := false
  samplePtwrites : Bool := false
  sampleBranches : Bool := true
  synthErrors : Bool := true
  deriving DecidableEq, Repr

section

variable (pt : Pt)

def Pt.estTsc : Bool := !pt.timelessDecoding

/-- The samples that can be made from a state. -/
inductive Synth
  | cbr | mwait | pwre | exstop | pwrx | instruction | transaction | ptwrite | branch
  deriving DecidableEq, Repr

def Pt.synths (state : State) : List Synth :=
  [(pt.samplePwrEvents && state.type.cbrChg, Synth.cbr),
    (pt.samplePwrEvents && state.type.mwaitOp, .mwait),
    (pt.samplePwrEvents && state.type.pwrEntry, .pwre),
    (pt.samplePwrEvents && state.type.exStop, .exstop),
    (pt.samplePwrEvents && state.type.pwrExit, .pwrx),
    (pt.sampleInstructions && state.type.instruction, .instruction),
    (pt.sampleTransactions && state.type.transaction, .transaction),
    (pt.samplePtwrites && state.type.ptw, .ptwrite),
    (pt.sampleBranches && state.type.branch, .branch)].filterMap
      fun (on, synth) => if on then some synth else none

/-- `struct intel_pt_queue`, with the states its decoder is going to return. -/
structure Ptq where
  outputs : List State
  state : State := {}
  haveSample : Bool := false
  timestamp : UInt64 := 0
  onHeap : Bool := false
  deliveries : ℕ := 0
  deriving DecidableEq, Repr

structure Sampled where
  state : State
  timestamp : UInt64
  made : List Synth
  deriving DecidableEq, Repr

def handOn (deliver : ℕ → Int) : ℕ → List Synth → Int × List Synth
  | _, [] => (0, [])
  | n, synth :: rest =>
    if deliver n ≠ 0 then (deliver n, [synth])
    else ((handOn deliver (n + 1) rest).1, synth :: (handOn deliver (n + 1) rest).2)

variable (deliver : ℕ → Int)

def sample (q : Ptq) : Int × Ptq × List Sampled :=
  if q.haveSample then
    let (err, made) := handOn deliver q.deliveries (pt.synths q.state)
    (err, { q with haveSample := false, deliveries := q.deliveries + made.length },
      [⟨q.state, q.timestamp, made⟩])
  else (0, q, [])

def Pt.returnsToUser (state : State) : Bool :=
  (pt.kernelStart ≤ state.fromIp || state.fromIp == 0) &&
    (state.toIp != 0 && state.toIp < pt.kernelStart)

def Pt.stamp (timestamp : UInt64) (state : State) : UInt64 :=
  if pt.estTsc && pt.returnsToUser state then state.estTimestamp
  else if timestamp < state.timestamp then state.timestamp
  else timestamp

structure Run where
  ret : Int
  timestamp : UInt64
  ptq : Ptq
  sampled : List Sampled

/-- The loop of `intel_pt_run_decoder`. -/
def runLoop (pt : Pt) (deliver : ℕ → Int) (timestamp : UInt64) : List State → Ptq → Run
  | outputs, q =>
    let (err, q, sampled) := sample pt deliver q
    if err ≠ 0 then ⟨err, timestamp, { q with outputs := outputs }, sampled⟩
    else
      match outputs with
      | [] => ⟨1, timestamp, { q with outputs := [] }, sampled⟩
      | state :: rest =>
        match state.err with
        | some .nodata => ⟨1, timestamp, { q with outputs := rest }, sampled⟩
        | some _ =>
          if pt.synthErrors then
            let err := deliver q.deliveries
            let q := { q with deliveries := q.deliveries + 1 }
            if err ≠ 0 then ⟨err, timestamp, { q with outputs := rest }, sampled⟩
            else
              let r := runLoop pt deliver timestamp rest q
              { r with sampled := sampled ++ r.sampled }
          else
            let r := runLoop pt deliver timestamp rest q
            { r with sampled := sampled ++ r.sampled }
        | none =>
          let q := { q with
            state := state, haveSample := true, timestamp := pt.stamp q.timestamp state }
          if !pt.timelessDecoding && timestamp ≤ q.timestamp then
            ⟨0, q.timestamp, { q with outputs := rest }, sampled⟩
          else
            let r := runLoop pt deliver timestamp rest q
            { r with sampled := sampled ++ r.sampled }

def runDecoder (timestamp : UInt64) (q : Ptq) : Run :=
  runLoop pt deliver timestamp q.outputs q

def gettingTimestamp : List State → Option State × List State
  | [] => (none, [])
  | state :: rest =>
    match state.err with
    | some .nodata => (none, rest)
    | some _ => gettingTimestamp rest
    | none => if state.timestamp = 0 then gettingTimestamp rest else (some state, rest)

/-- What `intel_pt_setup_queue` does with a queue that is not on the heap. -/
def Ptq.setup (q : Ptq) : Ptq :=
  match gettingTimestamp q.outputs with
  | (none, rest) => { q with outputs := rest }
  | (some state, rest) =>
    { q with
      outputs := rest, state := state, haveSample := true, timestamp := state.timestamp,
      onHeap := true }

/-- A queue as `intel_pt_alloc_queue` makes it. -/
def Ptq.new (outputs : List State) : Ptq := { outputs := outputs }

/-- Calls of `intel_pt_run_decoder` one after the other, with the given bounds. -/
def runs (pt : Pt) (deliver : ℕ → Int) : List UInt64 → Ptq → List Sampled
  | [], _ => []
  | timestamp :: rest, q =>
    let r := runDecoder pt deliver timestamp q
    r.sampled ++ runs pt deliver rest r.ptq

/-- The states of a decoder that are not errors. -/
def errorFree (outputs : List State) : List State := outputs.filter (·.err.isNone)

def Pt.stamps (pt : Pt) : UInt64 → List State → List (State × UInt64)
  | _, [] => []
  | t, state :: rest => (state, pt.stamp t state) :: pt.stamps (pt.stamp t state) rest

def Ptq.ahead (q : Ptq) (pt : Pt) : List (State × UInt64) :=
  (if q.haveSample then [(q.state, q.timestamp)] else []) ++
    pt.stamps q.timestamp (errorFree q.outputs)

def Sampled.key (x : Sampled) : State × UInt64 := (x.state, x.timestamp)

@[simp] theorem errorFree_nil : errorFree [] = [] := rfl

theorem errorFree_cons_of_none {state : State} (h : state.err = none) (rest : List State) :
    errorFree (state :: rest) = state :: errorFree rest := by
  simp [errorFree, h]

theorem errorFree_cons_of_some {state : State} {e : Err} (h : state.err = some e)
    (rest : List State) : errorFree (state :: rest) = errorFree rest := by
  simp [errorFree, h]

theorem Ptq.ahead_of_not_haveSample {q : Ptq} (h : q.haveSample = false) (pt : Pt) :
    q.ahead pt = pt.stamps q.timestamp (errorFree q.outputs) := by
  simp [Ptq.ahead, h]

theorem Ptq.ahead_of_haveSample {q : Ptq} (h : q.haveSample = true) (pt : Pt) :
    q.ahead pt = (q.state, q.timestamp) :: pt.stamps q.timestamp (errorFree q.outputs) := by
  simp [Ptq.ahead, h]

structure Samples (q : Ptq) (q' : Ptq) (sampled : List Sampled) : Prop where
  sampled : sampled.map Sampled.key = if q.haveSample then [(q.state, q.timestamp)] else []
  taken : q'.haveSample = false
  timestamp : q'.timestamp = q.timestamp
  onHeap : q'.onHeap = q.onHeap

theorem sample_spec (q : Ptq) : Samples q (sample pt deliver q).2.1 (sample pt deliver q).2.2 := by
  cases h : q.haveSample <;> constructor <;> simp [sample, h, Sampled.key]

theorem handOn_err (n : ℕ) (l : List Synth) (h : (handOn deliver n l).1 ≠ 0) :
    ∃ m, deliver m = (handOn deliver n l).1 := by
  induction l generalizing n with
  | nil => exact absurd rfl h
  | cons synth rest ih =>
    by_cases hn : deliver n = 0
    · simp only [handOn, hn, ne_eq, not_true_eq_false, if_false] at h ⊢
      exact ih (n + 1) h
    · exact ⟨n, by simp [handOn, hn]⟩

theorem sample_err (q : Ptq) (h : (sample pt deliver q).1 ≠ 0) :
    ∃ n, deliver n = (sample pt deliver q).1 := by
  cases hq : q.haveSample with
  | false => simp [sample, hq] at h
  | true =>
    simp only [sample, hq, if_true] at h ⊢
    exact handOn_err deliver q.deliveries (pt.synths q.state) h

/-- The ways a call of `intel_pt_run_decoder` can go. -/
inductive RunsTo (pt : Pt) (deliver : ℕ → Int) (timestamp : UInt64) :
    List State → Ptq → Run → Prop
  /-- Handing a sample on fails. -/
  | failed {outputs q q' sampled n} (hs : Samples q q' sampled) (hn : deliver n ≠ 0) :
    RunsTo pt deliver timestamp outputs q
      ⟨deliver n, timestamp, { q' with outputs := outputs }, sampled⟩
  /-- Handing an error on fails. -/
  | lost {state rest q q' sampled e n} (hs : Samples q q' sampled) (he : state.err = some e)
    (hn : deliver n ≠ 0) :
    RunsTo pt deliver timestamp (state :: rest) q
      ⟨deliver n, timestamp, { q' with outputs := rest }, sampled⟩
  | dry {q q' sampled} (hs : Samples q q' sampled) :
    RunsTo pt deliver timestamp [] q ⟨1, timestamp, { q' with outputs := [] }, sampled⟩
  | nodata {state rest q q' sampled} (hs : Samples q q' sampled)
    (he : state.err = some .nodata) :
    RunsTo pt deliver timestamp (state :: rest) q
      ⟨1, timestamp, { q' with outputs := rest }, sampled⟩
  | error {state rest q q' sampled e r} (hs : Samples q q' sampled) (he : state.err = some e)
    (hr : RunsTo pt deliver timestamp rest q' r) :
    RunsTo pt deliver timestamp (state :: rest) q { r with sampled := sampled ++ r.sampled }
  /-- The queue has reached the time it was to run to. -/
  | reached {state rest q q' sampled} (hs : Samples q q' sampled) (he : state.err = none)
    (hle : timestamp ≤ pt.stamp q.timestamp state) :
    RunsTo pt deliver timestamp (state :: rest) q
      ⟨0, pt.stamp q.timestamp state,
        { q' with
          outputs := rest, state := state, haveSample := true,
          timestamp := pt.stamp q.timestamp state },
        sampled⟩
  | next {state rest q q' sampled r} (hs : Samples q q' sampled) (he : state.err = none)
    (hlt : pt.timelessDecoding = false → pt.stamp q.timestamp state < timestamp)
    (hr : RunsTo pt deliver timestamp rest
      { q' with state := state, haveSample := true, timestamp := pt.stamp q.timestamp state } r) :
    RunsTo pt deliver timestamp (state :: rest) q { r with sampled := sampled ++ r.sampled }

theorem runLoop_runsTo (timestamp : UInt64) (outputs : List State) (q : Ptq) :
    RunsTo pt deliver timestamp outputs q (runLoop pt deliver timestamp outputs q) := by
  induction outputs generalizing q with
  | nil =>
    have hs := sample_spec pt deliver q
    have herr := sample_err pt deliver q
    simp only [runLoop]
    generalize sample pt deliver q = r at hs herr ⊢
    obtain ⟨err, q', sampled⟩ := r
    split
    · next h =>
      obtain ⟨n, rfl⟩ := herr h
      exact .failed hs h
    · exact .dry hs
  | cons state rest ih =>
    have hs := sample_spec pt deliver q
    have herr := sample_err pt deliver q
    rw [runLoop]
    generalize sample pt deliver q = r at hs herr ⊢
    obtain ⟨err, q', sampled⟩ := r
    simp only at hs herr ⊢
    split
    · next h =>
      obtain ⟨n, rfl⟩ := herr h
      exact .failed hs h
    · split
      · next he => exact .nodata hs he
      · next e _ he =>
        have hs' : Samples q { q' with deliveries := q'.deliveries + 1 } sampled := { hs with }
        split
        · split
          · next h => exact .lost hs' he h
          · exact .error hs' he (ih _)
        · exact .error hs he (ih _)
      · next he =>
        simp only [hs.timestamp]
        split
        · next h =>
          simp only [Bool.and_eq_true, decide_eq_true_eq] at h
          exact .reached hs he h.2
        · next h =>
          simp only [Bool.and_eq_true, decide_eq_true_eq, not_and, UInt64.not_le] at h
          exact .next hs he (fun ht => h (by simp [ht])) (ih _)

end

section

variable {pt : Pt} {deliver : ℕ → Int} {timestamp : UInt64} {outputs : List State} {q : Ptq}
  {r : Run}

theorem Samples.ahead_eq {q q' : Ptq} {sampled : List Sampled} (hs : Samples q q' sampled)
    (pt : Pt) (outputs : List State) :
    sampled.map Sampled.key ++ ({ q' with outputs := outputs } : Ptq).ahead pt =
      (if q.haveSample then [(q.state, q.timestamp)] else []) ++
        pt.stamps q.timestamp (errorFree outputs) := by
  simp only [Ptq.ahead, hs.sampled, hs.taken, hs.timestamp, Bool.false_eq_true, if_false,
    List.nil_append]

theorem RunsTo.ahead_eq (h : RunsTo pt deliver timestamp outputs q r) :
    r.sampled.map Sampled.key ++ r.ptq.ahead pt =
      (if q.haveSample then [(q.state, q.timestamp)] else []) ++
        pt.stamps q.timestamp (errorFree outputs) := by
  induction h with
  | failed hs => exact hs.ahead_eq pt _
  | dry hs => exact hs.ahead_eq pt _
  | lost hs he | nodata hs he =>
    rw [errorFree_cons_of_some he]
    exact hs.ahead_eq pt _
  | error hs he _ ih =>
    rw [List.map_append, List.append_assoc, ih, hs.sampled, hs.taken, hs.timestamp,
      errorFree_cons_of_some he]
    simp
  | reached hs he =>
    rw [Ptq.ahead_of_haveSample rfl, hs.sampled, errorFree_cons_of_none he]
    rfl
  | next hs he _ _ ih =>
    rw [List.map_append, List.append_assoc, ih, hs.sampled, errorFree_cons_of_none he]
    rfl

theorem runDecoder_runsTo (pt : Pt) (deliver : ℕ → Int) (timestamp : UInt64) (q : Ptq) :
    RunsTo pt deliver timestamp q.outputs q (runDecoder pt deliver timestamp q) :=
  runLoop_runsTo pt deliver timestamp q.outputs q

theorem runDecoder_ahead (pt : Pt) (deliver : ℕ → Int) (timestamp : UInt64) (q : Ptq) :
    (runDecoder pt deliver timestamp q).sampled.map Sampled.key ++
      (runDecoder pt deliver timestamp q).ptq.ahead pt = q.ahead pt :=
  (runDecoder_runsTo pt deliver timestamp q).ahead_eq

theorem runs_isPrefixOf (pt : Pt) (deliver : ℕ → Int) (bounds : List UInt64) (q : Ptq) :
    (runs pt deliver bounds q).map Sampled.key <+: q.ahead pt := by
  induction bounds generalizing q with
  | nil => exact List.nil_prefix
  | cons timestamp bounds ih =>
    rw [runs, List.map_append, ← runDecoder_ahead pt deliver timestamp q,
      List.prefix_append_right_inj]
    apply ih

theorem RunsTo.length_outputs (h : RunsTo pt deliver timestamp outputs q r)
    (hok : ∀ n, deliver n = 0) :
    r.ptq.outputs.length < outputs.length ∨ r.ptq.haveSample = false ∧ r.ptq.outputs = [] := by
  induction h with
  | failed _ hn | lost _ _ hn => exact absurd (hok _) hn
  | dry hs => exact .inr ⟨hs.taken, rfl⟩
  | nodata | reached => exact .inl (Nat.lt_succ_self _)
  | error _ _ _ ih | next _ _ _ _ ih => exact ih.imp_left Nat.lt_succ_of_lt

theorem exists_runs (pt : Pt) (q : Ptq) :
    ∃ bounds, (runs pt (fun _ => 0) bounds q).map Sampled.key = q.ahead pt := by
  induction hn : q.outputs.length using Nat.strongRecOn generalizing q with
  | _ n ih =>
    have hrun := runDecoder_runsTo pt (fun _ => 0) 0 q
    have hahead := runDecoder_ahead pt (fun _ => 0) 0 q
    rcases hrun.length_outputs fun _ => rfl with hlt | ⟨hdone, hout⟩
    · obtain ⟨bounds, hb⟩ := ih _ (hn ▸ hlt) (runDecoder pt (fun _ => 0) 0 q).ptq rfl
      exact ⟨0 :: bounds, by rw [runs, List.map_append, hb, hahead]⟩
    · have hdry : (runDecoder pt (fun _ => 0) 0 q).ptq.ahead pt = [] := by
        rw [Ptq.ahead_of_not_haveSample hdone, hout]
        rfl
      rw [hdry, List.append_nil] at hahead
      exact ⟨[0], by simpa [runs] using hahead⟩

end

/-- The decoder reports times that never decrease, with estimates not below them. -/
structure Reports (l : List State) : Prop where
  mono : l.Pairwise fun a b => a.timestamp ≤ b.timestamp
  est : ∀ s ∈ l, s.timestamp ≤ s.estTimestamp

/-- The estimates at the returns to user space never decrease. -/
def Pt.EstimatesInOrder (pt : Pt) (l : List State) : Prop :=
  (l.filter pt.returnsToUser).Pairwise fun a b => a.estTimestamp ≤ b.estTimestamp

instance (pt : Pt) (l : List State) : Decidable (pt.EstimatesInOrder l) :=
  inferInstanceAs (Decidable (List.Pairwise _ _))

section

variable {pt : Pt} {l : List State} {t : UInt64} {s : State}

theorem Reports.tail (h : Reports (s :: l)) : Reports l :=
  ⟨h.mono.tail, fun a ha => h.est a (List.mem_cons_of_mem s ha)⟩

theorem stamp_of_returns (hp : pt.timelessDecoding = false) (h : pt.returnsToUser s = true) :
    pt.stamp t s = s.estTimestamp := by
  simp [Pt.stamp, Pt.estTsc, hp, h]

theorem stamp_of_not_returns (h : pt.returnsToUser s = false) :
    pt.stamp t s = if t < s.timestamp then s.timestamp else t := by
  simp [Pt.stamp, h]

theorem Pt.EstimatesInOrder.tail (h : pt.EstimatesInOrder (s :: l)) : pt.EstimatesInOrder l :=
  h.sublist ((List.sublist_cons_self s l).filter _)

theorem stamp_le_est (hp : pt.timelessDecoding = false) (hl : Reports (s :: l))
    (ho : pt.EstimatesInOrder (s :: l))
    (ht : ∀ a ∈ s :: l, pt.returnsToUser a = true → t ≤ a.estTimestamp) :
    ∀ a ∈ l, pt.returnsToUser a = true → pt.stamp t s ≤ a.estTimestamp := by
  intro a ha hr
  cases hs : pt.returnsToUser s with
  | true =>
    rw [stamp_of_returns hp hs]
    rw [Pt.EstimatesInOrder, List.filter_cons_of_pos hs] at ho
    exact List.rel_of_pairwise_cons ho (List.mem_filter.mpr ⟨ha, hr⟩)
  | false =>
    rw [stamp_of_not_returns hs]
    split
    · apply UInt64.le_trans (List.rel_of_pairwise_cons hl.mono ha)
      exact hl.est a (List.mem_cons_of_mem s ha)
    · exact ht a (List.mem_cons_of_mem s ha) hr

theorem le_stamp (hp : pt.timelessDecoding = false)
    (ht : pt.returnsToUser s = true → t ≤ s.estTimestamp) : t ≤ pt.stamp t s := by
  cases hs : pt.returnsToUser s with
  | true =>
    rw [stamp_of_returns hp hs]
    exact ht hs
  | false =>
    rw [stamp_of_not_returns hs]
    split
    · next hlt => exact UInt64.le_of_lt hlt
    · exact UInt64.le_refl t

theorem stamps_pairwise (hp : pt.timelessDecoding = false) (hl : Reports l)
    (ho : pt.EstimatesInOrder l) (ht : ∀ a ∈ l, pt.returnsToUser a = true → t ≤ a.estTimestamp) :
    (t :: (pt.stamps t l).map Prod.snd).Pairwise (· ≤ ·) := by
  induction l generalizing t with
  | nil => exact List.pairwise_singleton _ t
  | cons s l ih =>
    have hle : t ≤ pt.stamp t s := le_stamp hp (ht s List.mem_cons_self)
    have hrest := ih hl.tail ho.tail (stamp_le_est hp hl ho ht)
    apply List.Pairwise.cons _ hrest
    intro x hx
    rcases List.mem_cons.mp hx with rfl | hx
    · exact hle
    · exact UInt64.le_trans hle (List.rel_of_pairwise_cons hrest hx)

theorem estimates_sublist (hp : pt.timelessDecoding = false) (t : UInt64) (l : List State) :
    ((l.filter pt.returnsToUser).map State.estTimestamp).Sublist
      ((pt.stamps t l).map Prod.snd) := by
  induction l generalizing t with
  | nil => exact List.Sublist.refl []
  | cons s l ih =>
    cases hs : pt.returnsToUser s with
    | true =>
      rw [List.filter_cons_of_pos hs, Pt.stamps, List.map_cons, List.map_cons,
        stamp_of_returns hp hs]
      exact (ih _).cons_cons _
    | false =>
      rw [List.filter_cons_of_neg (by simp [hs])]
      exact (ih _).cons _

theorem mem_stamps (x : State × UInt64) (hx : x ∈ pt.stamps t l) :
    x.2 = t ∨ ∃ s ∈ l, x.2 = s.timestamp ∨ x.2 = s.estTimestamp := by
  induction l generalizing t with
  | nil => exact absurd hx List.not_mem_nil
  | cons s l ih =>
    have hstamp : pt.stamp t s = t ∨ pt.stamp t s = s.timestamp ∨
        pt.stamp t s = s.estTimestamp := by
      unfold Pt.stamp
      split_ifs <;> simp
    have hs : pt.stamp t s = t ∨ ∃ a ∈ s :: l, pt.stamp t s = a.timestamp ∨
        pt.stamp t s = a.estTimestamp := hstamp.imp_right fun h => ⟨s, List.mem_cons_self, h⟩
    rcases List.mem_cons.mp hx with rfl | hx
    · exact hs
    · rcases ih hx with heq | ⟨a, ha, h⟩
      · exact heq ▸ hs
      · exact .inr ⟨a, List.mem_cons_of_mem s ha, h⟩

end

/-- `tsc_to_perf_time` does not overflow at this count. -/
structure TscConversion.Converts (tc : TscConversion) (cyc : UInt64) : Prop where
  shift : tc.timeShift ≤ 32
  fits : tc.timeZero.toNat + cyc.toNat * tc.timeMult.toNat / 2 ^ tc.timeShift.toNat < 2 ^ 64

variable {tc : TscConversion}

theorem TscConversion.Converts.of_le {a b : UInt64} (h : tc.Converts b) (hle : a ≤ b) :
    tc.Converts a := by
  have hdiv : a.toNat * tc.timeMult.toNat / 2 ^ tc.timeShift.toNat ≤
      b.toNat * tc.timeMult.toNat / 2 ^ tc.timeShift.toNat :=
    Nat.div_le_div_right (Nat.mul_le_mul_right _ (UInt64.le_iff_toNat_le.mp hle))
  have hfits := h.fits
  exact ⟨h.shift, by omega⟩

theorem toNat_tscToPerfTime {cyc : UInt64} (h : tc.Converts cyc) :
    (tscToPerfTime cyc tc).toNat =
      tc.timeZero.toNat + cyc.toNat * tc.timeMult.toNat / 2 ^ tc.timeShift.toNat := by
  have hshift : tc.timeShift.toNat ≤ 32 := UInt16.le_iff_toNat_le.mp h.shift
  have hfits := h.fits
  have hmod : tc.timeShift.toUInt64.toNat % 64 = tc.timeShift.toNat := by
    rw [UInt16.toNat_toUInt64]
    omega
  have hmult := tc.timeMult.toNat_lt
  generalize hn : tc.timeShift.toNat = n at *
  have hpow : 2 ^ n ≤ 2 ^ 32 := Nat.pow_le_pow_right (by norm_num) hshift
  have hone : 1 ≤ 2 ^ n := Nat.one_le_two_pow
  have hmask : ((1 <<< tc.timeShift.toUInt64 : UInt64) - 1).toNat = 2 ^ n - 1 := by
    rw [UInt64.toNat_sub_of_le, UInt64.toNat_shiftLeft, hmod]
    · simp [Nat.one_shiftLeft]
      omega
    · rw [UInt64.le_iff_toNat_le, UInt64.toNat_shiftLeft, hmod]
      simp [Nat.one_shiftLeft]
      omega
  have hquot : (cyc >>> tc.timeShift.toUInt64).toNat = cyc.toNat / 2 ^ n := by
    rw [UInt64.toNat_shiftRight, hmod, Nat.shiftRight_eq_div_pow]
  have hrem : (cyc &&& ((1 <<< tc.timeShift.toUInt64) - 1)).toNat = cyc.toNat % 2 ^ n := by
    rw [UInt64.toNat_and, hmask, Nat.and_two_pow_sub_one_eq_mod]
  have hsplit := Lib.mul_div_split cyc.toNat tc.timeMult.toNat hone
  have hlow : cyc.toNat % 2 ^ n * tc.timeMult.toNat < 2 ^ 64 := by
    calc cyc.toNat % 2 ^ n * tc.timeMult.toNat ≤ 2 ^ 32 * tc.timeMult.toNat :=
          Nat.mul_le_mul_right _ ((Nat.mod_lt _ hone).le.trans hpow)
      _ < 2 ^ 32 * 2 ^ 32 := (Nat.mul_lt_mul_left (by decide)).mpr hmult
      _ = 2 ^ 64 := by decide
  simp only [tscToPerfTime]
  rw [UInt64.toNat_add, UInt64.toNat_add, UInt64.toNat_mul, hquot,
    UInt64.toNat_shiftRight (_ * _), UInt64.toNat_mul, hrem, hmod, UInt32.toNat_toUInt64,
    Nat.mod_eq_of_lt hlow, Nat.shiftRight_eq_div_pow, hsplit]
  rw [hsplit] at hfits
  generalize cyc.toNat / 2 ^ n * tc.timeMult.toNat = high at hfits ⊢
  generalize cyc.toNat % 2 ^ n * tc.timeMult.toNat / 2 ^ n = low at hfits ⊢
  omega

theorem tscToPerfTime_mono {a b : UInt64} (h : tc.Converts b) (hle : a ≤ b) :
    tscToPerfTime a tc ≤ tscToPerfTime b tc := by
  rw [UInt64.le_iff_toNat_le, toNat_tscToPerfTime h, toNat_tscToPerfTime (h.of_le hle)]
  apply Nat.add_le_add_left
  exact Nat.div_le_div_right (Nat.mul_le_mul_right _ (UInt64.le_iff_toNat_le.mp hle))

def Pt.visitsOf (pt : Pt) (name : Synth → State → Option (String × String)) (x : Sampled) :
    List Agent.Sample :=
  x.made.filterMap fun synth => (name synth x.state).map fun (symbolName, dso) =>
    ⟨tscToPerfTime x.timestamp pt.tc, symbolName, dso⟩

def Pt.visits (pt : Pt) (name : Synth → State → Option (String × String))
    (sampled : List Sampled) : List Agent.Sample :=
  sampled.flatMap (pt.visitsOf name)

def StampsInOrder (sampled : List Sampled) : Prop :=
  sampled.Pairwise fun a b => a.timestamp ≤ b.timestamp

/-- The times of the visits never decrease, and `timestamp - routine_start_timestamp` never wraps.
-/
structure VisitsInOrder (visits : List Agent.Sample) : Prop where
  mono : visits.Pairwise fun a b => a.timestamp ≤ b.timestamp
  no_wrap : ∀ before v after, visits = before ++ v :: after →
    (Agent.profile before).routineStartTimestamp ≤ v.timestamp

theorem VisitsInOrder.of_mono {visits : List Agent.Sample}
    (h : visits.Pairwise fun a b => a.timestamp ≤ b.timestamp) : VisitsInOrder visits := by
  refine ⟨h, ?_⟩
  rintro before v after rfl
  rcases Agent.routineStart_profile before with h0 | ⟨s, hs, heq⟩
  · rw [h0]
    exact UInt64.zero_le
  · rw [heq]
    exact (List.pairwise_append.mp h).2.2 s hs v List.mem_cons_self

theorem timestamp_of_mem_visitsOf {pt : Pt} {name : Synth → State → Option (String × String)}
    {x : Sampled} {v : Agent.Sample} (hv : v ∈ pt.visitsOf name x) :
    v.timestamp = tscToPerfTime x.timestamp pt.tc := by
  simp only [Pt.visitsOf, List.mem_filterMap, Option.map_eq_some_iff] at hv
  obtain ⟨synth, -, n, -, rfl⟩ := hv
  rfl

theorem visits_pairwise {pt : Pt} {sampled : List Sampled} (h : StampsInOrder sampled)
    (hc : ∀ x ∈ sampled, pt.tc.Converts x.timestamp)
    (name : Synth → State → Option (String × String)) :
    (pt.visits name sampled).Pairwise fun a b => a.timestamp ≤ b.timestamp := by
  apply List.pairwise_flatMap.mpr
  constructor
  · intro x _
    apply List.pairwise_of_forall_mem_list
    intro v hv w hw
    rw [timestamp_of_mem_visitsOf hv, timestamp_of_mem_visitsOf hw]
    exact UInt64.le_refl _
  · apply List.Pairwise.imp_of_mem _ h
    intro x y _ hy hle v hv w hw
    rw [timestamp_of_mem_visitsOf hv, timestamp_of_mem_visitsOf hw]
    exact tscToPerfTime_mono (hc y hy) hle

section

variable {pt : Pt} {outputs : List State} {q : Ptq}

theorem gettingTimestamp_spec {s : State} {rest : List State}
    (h : gettingTimestamp outputs = (some s, rest)) :
    s.err = none ∧ s.timestamp ≠ 0 ∧ ∃ skipped, outputs = skipped ++ s :: rest ∧
      ∀ a ∈ errorFree skipped, a.timestamp = 0 := by
  induction outputs with
  | nil => exact absurd h (by simp [gettingTimestamp])
  | cons a l ih =>
    rw [gettingTimestamp] at h
    split at h
    · exact absurd h (by simp)
    · next e _ he =>
      obtain ⟨hs, hts, skipped, rfl, hz⟩ := ih h
      refine ⟨hs, hts, a :: skipped, rfl, ?_⟩
      rw [errorFree_cons_of_some he]
      exact hz
    · next he =>
      split at h
      · next h0 =>
        obtain ⟨hs, hts, skipped, rfl, hz⟩ := ih h
        refine ⟨hs, hts, a :: skipped, rfl, ?_⟩
        rw [errorFree_cons_of_none he, List.forall_mem_cons]
        exact ⟨h0, hz⟩
      · next hts =>
        obtain ⟨hs, rfl⟩ := Prod.mk.inj h
        obtain rfl := Option.some.inj hs
        exact ⟨he, hts, [], rfl, by simp⟩

structure Ptq.Fresh (q : Ptq) : Prop where
  haveSample : q.haveSample = true
  timestamp : q.timestamp = q.state.timestamp
  reports : Reports (q.state :: errorFree q.outputs)

theorem setup_onHeap (h : (Ptq.new outputs).setup.onHeap = true) :
    ∃ s rest, gettingTimestamp outputs = (some s, rest) ∧
      (Ptq.new outputs).setup = { Ptq.new rest with
        state := s, haveSample := true, timestamp := s.timestamp, onHeap := true } := by
  have hout : (Ptq.new outputs).outputs = outputs := rfl
  unfold Ptq.setup at h ⊢
  rw [hout] at h ⊢
  rcases hg : gettingTimestamp outputs with ⟨_ | s, rest⟩
  · rw [hg] at h
    cases h
  · exact ⟨s, rest, rfl, rfl⟩

theorem setup_sublist (hq : (Ptq.new outputs).setup.onHeap = true) :
    ((Ptq.new outputs).setup.state :: errorFree (Ptq.new outputs).setup.outputs).Sublist
      (errorFree outputs) := by
  obtain ⟨s, rest, hg, heq⟩ := setup_onHeap hq
  obtain ⟨hs, -, skipped, rfl, -⟩ := gettingTimestamp_spec hg
  rw [heq]
  change (s :: errorFree rest).Sublist _
  rw [← errorFree_cons_of_none hs]
  exact (List.sublist_append_right skipped _).filter _

theorem setup_fresh (hq : (Ptq.new outputs).setup.onHeap = true)
    (hrep : Reports (errorFree outputs)) : (Ptq.new outputs).setup.Fresh := by
  have hsub := setup_sublist hq
  obtain ⟨s, rest, -, heq⟩ := setup_onHeap hq
  have hrep' : Reports
      ((Ptq.new outputs).setup.state :: errorFree (Ptq.new outputs).setup.outputs) :=
    ⟨hrep.mono.sublist hsub, fun a ha => hrep.est a (hsub.mem ha)⟩
  rw [heq] at hrep' ⊢
  exact ⟨rfl, rfl, hrep'⟩

theorem Ptq.Fresh.ahead_eq (h : q.Fresh) (pt : Pt) : (q.ahead pt).map Prod.snd =
    q.timestamp :: (pt.stamps q.timestamp (errorFree q.outputs)).map Prod.snd := by
  rw [Ptq.ahead_of_haveSample h.haveSample, List.map_cons]

theorem Ptq.Fresh.le_est (h : q.Fresh) {a : State} (ha : a ∈ errorFree q.outputs) :
    q.timestamp ≤ a.estTimestamp := by
  rw [h.timestamp]
  apply UInt64.le_trans (List.rel_of_pairwise_cons h.reports.mono ha)
  exact h.reports.est a (List.mem_cons_of_mem _ ha)

theorem stampsInOrder_iff (sampled : List Sampled) :
    StampsInOrder sampled ↔ ((sampled.map Sampled.key).map Prod.snd).Pairwise (· ≤ ·) := by
  rw [List.map_map, List.pairwise_map]
  rfl

theorem Ptq.Fresh.stampsInOrder (h : q.Fresh) (hp : pt.timelessDecoding = false)
    (ho : pt.EstimatesInOrder (errorFree q.outputs)) (deliver : ℕ → Int)
    (bounds : List UInt64) : StampsInOrder (runs pt deliver bounds q) := by
  rw [stampsInOrder_iff]
  apply List.Pairwise.sublist ((runs_isPrefixOf pt deliver bounds q).sublist.map Prod.snd)
  rw [h.ahead_eq]
  exact stamps_pairwise hp h.reports.tail ho fun a ha _ => h.le_est ha

theorem Ptq.Fresh.estimatesInOrder (h : q.Fresh) (hp : pt.timelessDecoding = false)
    (ho : ∀ deliver bounds, StampsInOrder (runs pt deliver bounds q)) :
    pt.EstimatesInOrder (errorFree q.outputs) := by
  obtain ⟨bounds, hb⟩ := exists_runs pt q
  have hall := (stampsInOrder_iff _).mp (ho (fun _ => 0) bounds)
  rw [hb, h.ahead_eq] at hall
  have hest := hall.tail.sublist (estimates_sublist hp q.timestamp (errorFree q.outputs))
  exact List.pairwise_map.mp hest

/-- No time of the queue is above all estimates. -/
theorem Ptq.Fresh.exists_le_est (h : q.Fresh) {x : State × UInt64} (hx : x ∈ q.ahead pt) :
    ∃ s ∈ q.state :: errorFree q.outputs, x.2 ≤ s.estTimestamp := by
  have hfirst : q.timestamp ≤ q.state.estTimestamp :=
    h.timestamp ▸ h.reports.est q.state List.mem_cons_self
  rw [Ptq.ahead_of_haveSample h.haveSample] at hx
  rcases List.mem_cons.mp hx with rfl | hx
  · exact ⟨q.state, List.mem_cons_self, hfirst⟩
  · rcases mem_stamps x hx with heq | ⟨s, hs, heq | heq⟩
    · exact ⟨q.state, List.mem_cons_self, heq ▸ hfirst⟩
    · exact ⟨s, List.mem_cons_of_mem _ hs, heq ▸ h.reports.est s (List.mem_cons_of_mem _ hs)⟩
    · exact ⟨s, List.mem_cons_of_mem _ hs, heq ▸ UInt64.le_refl _⟩

/-- Samples of one queue come in time order exactly when the estimates at the returns to user space
do. -/
theorem runs_in_order_iff (hp : pt.timelessDecoding = false) (hq : (Ptq.new outputs).setup = q)
    (hheap : q.onHeap = true) (hrep : Reports (errorFree outputs)) :
    ((∀ deliver bounds, StampsInOrder (runs pt deliver bounds q)) ↔
        pt.EstimatesInOrder (errorFree q.outputs)) ∧
      (pt.EstimatesInOrder (errorFree q.outputs) →
        (∀ s ∈ errorFree outputs, pt.tc.Converts s.estTimestamp) →
        ∀ deliver bounds name, VisitsInOrder (pt.visits name (runs pt deliver bounds q))) := by
  have hf : q.Fresh := by
    subst hq
    exact setup_fresh hheap hrep
  have hsub : (q.state :: errorFree q.outputs).Sublist (errorFree outputs) := by
    subst hq
    exact setup_sublist hheap
  refine ⟨⟨hf.estimatesInOrder hp, hf.stampsInOrder hp⟩, ?_⟩
  intro ho hconv deliver bounds name
  apply VisitsInOrder.of_mono
  apply visits_pairwise (hf.stampsInOrder hp ho deliver bounds)
  intro x hx
  have hmem : x.key ∈ q.ahead pt :=
    (runs_isPrefixOf pt deliver bounds q).subset (List.mem_map_of_mem hx)
  obtain ⟨s, hs, hle⟩ := hf.exists_le_est hmem
  exact (hconv s (hsub.mem hs)).of_le hle

end

def demoReturns (first second : UInt64) : List State :=
  [{ type := { branch := true }, fromIp := 0xffffffff81000000, toIp := 0x402010,
     timestamp := 100, estTimestamp := first },
   { err := some .ovr },
   { type := { branch := true }, fromIp := 0x402020, toIp := 0xffffffff81000000,
     timestamp := 150, estTimestamp := 150 },
   { type := { branch := true }, fromIp := 0xffffffff81000010, toIp := 0x403000,
     timestamp := 150, estTimestamp := second }]

def demoStart : State :=
  { type := { branch := true }, fromIp := 0x401000, toIp := 0x402000, timestamp := 100,
    estTimestamp := 100 }

def demoQueue (first second : UInt64) : Ptq :=
  { outputs := demoReturns first second, state := demoStart, haveSample := true,
    timestamp := 100, onHeap := true }

theorem demoQueue_in_order :
    (∀ deliver bounds, StampsInOrder (runs {} deliver bounds (demoQueue 120 160))) ∧
      ∀ deliver bounds name,
        VisitsInOrder (({} : Pt).visits name (runs {} deliver bounds (demoQueue 120 160))) := by
  have hq : (Ptq.new (demoStart :: demoReturns 120 160)).setup = demoQueue 120 160 := rfl
  have hrep : Reports (errorFree (demoStart :: demoReturns 120 160)) := ⟨by decide, by decide⟩
  have hest : ({} : Pt).EstimatesInOrder (errorFree (demoQueue 120 160).outputs) := by decide
  have hconv : ∀ cyc : UInt64, ({} : Pt).tc.Converts cyc := fun cyc =>
    ⟨by decide, by simpa using cyc.toNat_lt⟩
  have hp : ({} : Pt).timelessDecoding = false := rfl
  obtain ⟨hiff, hvisits⟩ := runs_in_order_iff hp hq rfl hrep
  exact ⟨hiff.mpr hest, hvisits hest fun s _ => hconv s.estTimestamp⟩

def demoName (_ : Synth) (s : State) : Option (String × String) :=
  some (if s.toIp = 0x402000 ∨ s.toIp = 0x403000 then "f" else "g", "libc.so")

theorem demoQueue_goes_back :
    (Ptq.new (demoStart :: demoReturns 200 150)).setup = demoQueue 200 150 ∧
      Reports (errorFree (demoStart :: demoReturns 200 150)) ∧
      (runs {} (fun _ => 0) [0xffffffffffffffff] (demoQueue 200 150)).map (·.timestamp) =
        [100, 200, 200, 150] ∧
      (Agent.profile (({} : Pt).visits demoName
        (runs {} (fun _ => 0) [0xffffffffffffffff] (demoQueue 200 150)))).allRoutines.lookup
          "g@libc.so" = some ⟨18446744073709551566, 1⟩ := by
  refine ⟨rfl, ⟨by decide, by decide⟩, ?_, ?_⟩
  · decide +kernel
  · decide +kernel

end RPerf.Queues
