import Mathlib.Data.UInt
import RPerf.Agent.SelfTime

/-!
# The table of the top routines

`prepare_top` of `profiler-backend.cpp` and the functions that read the table it makes.
-/

namespace RPerf.Agent

/-- `struct routine`. -/
structure Routine where
  methodName : String
  totalTime : UInt64
  invokeCount : UInt64
  deriving DecidableEq, Repr

def greaterByTotalTime (a b : Routine) : Bool := b.totalTime < a.totalTime

/-- What the C++ library leaves open: the order of a set, and of equal elements. -/
structure Library where
  iterate : List Routine → List Routine
  iterate_perm : ∀ l, (iterate l).Perm l
  sort : List Routine → List Routine
  sort_perm : ∀ l, (sort l).Perm l
  sorted : ∀ l, (sort l).Pairwise fun a b => greaterByTotalTime b a = false

def elements (routines : Routines) : List Routine :=
  routines.entries.map fun e => ⟨e.1, e.2.totalTime, e.2.invokeCount⟩

/-- `prepare_top`, with what is already in `functions_by_self_time`. -/
def prepareTop (lib : Library) (top : List Routine) (p : Profile) : List Routine :=
  lib.sort (top ++ lib.iterate (elements p.allRoutines))

def toInt (n : ℕ) : ℤ := (BitVec.ofNat 32 n).toInt

variable (top : List Routine)

def getTopLen : ℤ := toInt top.length

def getTopByIdx (idx : ℕ) : Option String := top[idx]?.map (·.methodName)

def getCountersByIdx (idx : ℕ) : Option UInt64 := top[idx]?.map (·.totalTime)

def getInvokeCountByIdx (idx : ℕ) : Option ℤ :=
  top[idx]?.map fun r => toInt r.invokeCount.toNat

section Accounts

variable {K : Type*} [DecidableEq K] (key : Sample → K)

def charges : Option K → UInt64 → List Sample → List (K × UInt64)
  | _, _, [] => []
  | cur, start, s :: l =>
    let start := if start = 0 then s.timestamp else start
    if cur = some (key s) then charges cur start l
    else (cur.map fun k => (k, s.timestamp - start)).toList ++ charges (some (key s)) s.timestamp l

/-- The keys that come, in order. -/
def entered : Option K → List Sample → List K
  | _, [] => []
  | cur, s :: l => if cur = some (key s) then entered cur l else key s :: entered (some (key s)) l

/-- What is charged to one key. -/
def charged (cs : List (K × UInt64)) (k : K) : UInt64 := ((cs.filter (·.1 = k)).map Prod.snd).sum

/-- The time of a key in a sequence of samples. -/
def timeOf (samples : List Sample) (k : K) : UInt64 := charged (charges key none 0 samples) k

/-- The number of times a key is entered. -/
def entriesOf (samples : List Sample) (k : K) : ℕ := (entered key none samples).count k

theorem charged_append (cs ds : List (K × UInt64)) (k : K) :
    charged (cs ++ ds) k = charged cs k + charged ds k := by
  induction cs with
  | nil => exact (UInt64.zero_add _).symm
  | cons c cs ih =>
    by_cases hc : c.1 = k
    · simp only [charged, List.cons_append, List.filter_cons, hc, decide_true, if_true,
        List.map_cons, List.sum_cons] at ih ⊢
      rw [ih, UInt64.add_assoc]
    · simp only [charged, List.cons_append, List.filter_cons, hc, decide_false] at ih ⊢
      exact ih

theorem mem_entered {k : K} {l : List Sample} :
    ∀ {cur : Option K}, k ∈ entered key cur l → ∃ s ∈ l, key s = k := by
  induction l with
  | nil => simp [entered]
  | cons s l ih =>
    intro cur hk
    rw [entered] at hk
    split_ifs at hk
    · obtain ⟨t, ht, rfl⟩ := ih hk
      exact ⟨t, List.mem_cons_of_mem s ht, rfl⟩
    · rcases List.mem_cons.mp hk with rfl | hk
      · exact ⟨s, List.mem_cons_self, rfl⟩
      · obtain ⟨t, ht, rfl⟩ := ih hk
        exact ⟨t, List.mem_cons_of_mem s ht, rfl⟩

theorem key_mem_entered {l : List Sample} :
    ∀ (cur : Option K) {s : Sample}, s ∈ l → cur = some (key s) ∨ key s ∈ entered key cur l := by
  induction l with
  | nil => simp
  | cons t l ih =>
    intro cur s hs
    rw [entered]
    rcases List.mem_cons.mp hs with rfl | hs
    · split_ifs with hcur
      · exact .inl hcur
      · exact .inr List.mem_cons_self
    · split_ifs with hcur
      · exact ih cur hs
      · rcases ih (some (key t)) hs with heq | hmem
        · exact .inr (Option.some.inj heq ▸ List.mem_cons_self)
        · exact .inr (List.mem_cons_of_mem _ hmem)

end Accounts

section Renamed

variable {K K' : Type*} {key : Sample → K} {f : K → K'} {S : Set K} {l : List Sample} {k : K}

theorem map_eq_some_iff (hf : S.InjOn f) {cur : Option K} (hcur : ∀ k ∈ cur, k ∈ S) (hk : k ∈ S) :
    cur.map f = some (f k) ↔ cur = some k := by
  cases cur with
  | none => simp
  | some c => simpa using ⟨fun h => hf (hcur c rfl) hk h, fun h => h ▸ rfl⟩

variable [DecidableEq K] [DecidableEq K']

theorem charges_map (hf : S.InjOn f) (hl : ∀ s ∈ l, key s ∈ S) :
    ∀ (cur : Option K) (start : UInt64), (∀ k ∈ cur, k ∈ S) →
      charges (f ∘ key) (cur.map f) start l =
        (charges key cur start l).map fun c => (f c.1, c.2) := by
  induction l with
  | nil => intros; rfl
  | cons s l ih =>
    intro cur start hcur
    have hs := hl s List.mem_cons_self
    have hl' : ∀ t ∈ l, key t ∈ S := fun t ht => hl t (List.mem_cons_of_mem s ht)
    have hiff := map_eq_some_iff hf hcur hs
    simp only [charges, Function.comp_apply]
    by_cases h : cur = some (key s)
    · rw [if_pos h, if_pos (hiff.mpr h), ih hl' cur _ hcur]
    · have hrest := ih hl' (some (key s)) s.timestamp (by simpa using hs)
      rw [if_neg h, if_neg (mt hiff.mp h), List.map_append, ← hrest]
      cases cur <;> rfl

theorem entered_map (hf : S.InjOn f) (hl : ∀ s ∈ l, key s ∈ S) :
    ∀ (cur : Option K), (∀ k ∈ cur, k ∈ S) →
      entered (f ∘ key) (cur.map f) l = (entered key cur l).map f := by
  induction l with
  | nil => intros; rfl
  | cons s l ih =>
    intro cur hcur
    have hs := hl s List.mem_cons_self
    have hl' : ∀ t ∈ l, key t ∈ S := fun t ht => hl t (List.mem_cons_of_mem s ht)
    have hiff := map_eq_some_iff hf hcur hs
    simp only [entered, Function.comp_apply]
    by_cases h : cur = some (key s)
    · rw [if_pos h, if_pos (hiff.mpr h), ih hl' cur hcur]
    · have hrest := ih hl' (some (key s)) (by simpa using hs)
      rw [if_neg h, if_neg (mt hiff.mp h), List.map_cons, ← hrest]
      rfl

theorem mem_charges (hl : ∀ s ∈ l, key s ∈ S) :
    ∀ {cur : Option K} {start : UInt64}, (∀ k ∈ cur, k ∈ S) →
      ∀ c ∈ charges key cur start l, c.1 ∈ S := by
  induction l with
  | nil => simp [charges]
  | cons s l ih =>
    intro cur start hcur c hc
    have hl' : ∀ t ∈ l, key t ∈ S := fun t ht => hl t (List.mem_cons_of_mem s ht)
    rw [charges] at hc
    by_cases h : cur = some (key s)
    · rw [if_pos h] at hc
      exact ih hl' hcur c hc
    · rw [if_neg h] at hc
      rcases List.mem_append.mp hc with hc | hc
      · cases cur with
        | none => simp at hc
        | some k =>
          obtain rfl : c = (k, _) := by simpa using hc
          exact hcur k rfl
      · exact ih hl' (by simpa using hl s List.mem_cons_self) c hc

theorem charged_map (hf : S.InjOn f) {cs : List (K × UInt64)} (hcs : ∀ c ∈ cs, c.1 ∈ S)
    (hk : k ∈ S) :
    charged (cs.map fun c => (f c.1, c.2)) (f k) = charged cs k := by
  induction cs with
  | nil => rfl
  | cons c cs ih =>
    have htail := ih fun d hd => hcs d (List.mem_cons_of_mem c hd)
    have hiff : f c.1 = f k ↔ c.1 = k := hf.eq_iff (hcs c List.mem_cons_self) hk
    simp only [charged, List.map_cons, List.filter_cons, hiff] at htail ⊢
    split_ifs
    · rw [List.map_cons, List.map_cons, List.sum_cons, List.sum_cons, htail]
    · exact htail

theorem timeOf_map (hf : S.InjOn f) (hl : ∀ s ∈ l, key s ∈ S) (hk : k ∈ S) :
    timeOf (f ∘ key) l (f k) = timeOf key l k := by
  have hcharges := charges_map hf hl none 0 (by simp)
  rw [Option.map_none] at hcharges
  rw [timeOf, timeOf, hcharges, charged_map hf (mem_charges hl (by simp)) hk]

theorem entriesOf_map (hf : S.InjOn f) (hl : ∀ s ∈ l, key s ∈ S) (hk : k ∈ S) :
    entriesOf (f ∘ key) l (f k) = entriesOf key l k := by
  have hentered := entered_map hf hl none (by simp)
  rw [Option.map_none] at hentered
  have hmem : ∀ q ∈ entered key none l, q ∈ S := by
    intro q hq
    obtain ⟨s, hs, rfl⟩ := mem_entered key hq
    exact hl s hs
  rw [entriesOf, entriesOf, hentered, List.count, List.count, List.countP_map]
  refine List.countP_congr fun q hq => ?_
  simpa using hf.eq_iff (hmem q hq) hk

end Renamed

variable {p : Profile} {s : Sample}

theorem visit_same (h : p.lastRoutine = some s.function) :
    p.visit s = { p with
      routineStartTimestamp :=
        if p.routineStartTimestamp = 0 then s.timestamp else p.routineStartTimestamp } := by
  have hlast : p.lastRoutine = some (s.symbolName ++ "@" ++ s.dso) := h
  simp only [Profile.visit, visitSample, if_pos hlast]

theorem visit_other (h : p.lastRoutine ≠ some s.function) :
    p.visit s = {
      lastRoutine := some s.function
      routineStartTimestamp := s.timestamp
      allRoutines := enter
        (match p.lastRoutine with
          | none => p.allRoutines
          | some r => charge p.allRoutines r (s.timestamp -
            if p.routineStartTimestamp = 0 then s.timestamp else p.routineStartTimestamp))
        s.function } := by
  have hlast : p.lastRoutine ≠ some (s.symbolName ++ "@" ++ s.dso) := h
  simp only [Profile.visit, visitSample, if_neg hlast]
  rfl

def Profile.Tracked (p : Profile) : Prop := ∀ r, p.lastRoutine = some r → r ∈ p.allRoutines

theorem Profile.Tracked.visit (h : p.Tracked) (s : Sample) : (p.visit s).Tracked := by
  by_cases hlast : p.lastRoutine = some s.function
  · rw [visit_same hlast]
    exact h
  · rw [visit_other hlast]
    intro r hr
    rw [mem_enter]
    exact .inl (Option.some.inj hr).symm

theorem countersOf_visit (h : p.Tracked) (hlast : p.lastRoutine ≠ some s.function) (name : String) :
    (countersOf (p.visit s).allRoutines name).totalTime =
        (countersOf p.allRoutines name).totalTime +
          charged (p.lastRoutine.map fun k => (k, s.timestamp -
            if p.routineStartTimestamp = 0 then s.timestamp else p.routineStartTimestamp)).toList
            name ∧
      (countersOf (p.visit s).allRoutines name).invokeCount =
        (countersOf p.allRoutines name).invokeCount + if name = s.function then 1 else 0 := by
  rw [visit_other hlast]
  simp only [countersOf_enter]
  cases hr : p.lastRoutine with
  | none =>
    by_cases hname : name = s.function <;> simp [hname, charged]
  | some r =>
    have hmem := h r hr
    simp only [countersOf_charge _ _ _ _ hmem]
    by_cases hname : name = s.function <;> by_cases hnr : name = r <;>
      simp_all [charged, eq_comm]

theorem foldl_visit_counters (l : List Sample) (name : String) : ∀ {p : Profile}, p.Tracked →
    (countersOf (l.foldl Profile.visit p).allRoutines name).totalTime =
        (countersOf p.allRoutines name).totalTime +
          charged (charges Sample.function p.lastRoutine p.routineStartTimestamp l) name ∧
      (countersOf (l.foldl Profile.visit p).allRoutines name).invokeCount =
        (countersOf p.allRoutines name).invokeCount +
          UInt64.ofNat ((entered Sample.function p.lastRoutine l).count name) ∧
      (name ∈ (l.foldl Profile.visit p).allRoutines ↔
        name ∈ p.allRoutines ∨ name ∈ entered Sample.function p.lastRoutine l) := by
  induction l with
  | nil =>
    intro p _
    simp [charges, charged, entered]
  | cons s l ih =>
    intro p h
    obtain ⟨htime, hcount, hmem⟩ := ih (h.visit s)
    rw [List.foldl_cons, htime, hcount, hmem]
    by_cases hlast : p.lastRoutine = some s.function
    · simp only [charges, entered, if_pos hlast, visit_same hlast]
      simp
    · obtain ⟨htime', hcount'⟩ := countersOf_visit h hlast name
      have hnext : (p.visit s).lastRoutine = some s.function := by rw [visit_other hlast]
      have hstart : (p.visit s).routineStartTimestamp = s.timestamp := by rw [visit_other hlast]
      have hin : name ∈ (p.visit s).allRoutines ↔ name = s.function ∨ name ∈ p.allRoutines := by
        rw [visit_other hlast, mem_enter]
        cases p.lastRoutine with
        | none => rfl
        | some r => simp only [mem_charge]
      rw [htime', hcount', hin, hnext, hstart]
      simp only [charges, entered, if_neg hlast]
      refine ⟨?_, ?_, ?_⟩
      · rw [charged_append, UInt64.add_assoc]
      · by_cases hname : name = s.function
        · rw [if_pos hname, hname, List.count_cons_self, UInt64.add_assoc, Nat.add_comm,
            UInt64.ofNat_add]
          rfl
        · rw [if_neg hname, List.count_cons_of_ne (Ne.symm hname), UInt64.add_zero]
      · rw [List.mem_cons]
        tauto

theorem profile_counters (samples : List Sample) (name : String) :
    (countersOf (profile samples).allRoutines name).totalTime =
        timeOf Sample.function samples name ∧
      (countersOf (profile samples).allRoutines name).invokeCount =
        UInt64.ofNat (entriesOf Sample.function samples name) ∧
      (name ∈ (profile samples).allRoutines ↔ ∃ s ∈ samples, s.function = name) := by
  obtain ⟨htime, hcount, hmem⟩ := foldl_visit_counters samples name (p := {})
    (by simp [Profile.Tracked])
  have hzero : countersOf (∅ : Routines) name = {} := by simp [countersOf]
  rw [hzero, UInt64.zero_add] at htime hcount
  refine ⟨htime, hcount, hmem.trans ?_⟩
  simp only [AList.notMem_empty, false_or]
  refine ⟨mem_entered Sample.function, ?_⟩
  rintro ⟨s, hs, rfl⟩
  exact (key_mem_entered Sample.function none hs).resolve_left (by simp)

theorem prepareTop_perm (lib : Library) (p : Profile) :
    (prepareTop lib [] p).Perm (elements p.allRoutines) :=
  (lib.sort_perm _).trans (lib.iterate_perm _)

theorem prepareTop_sorted (lib : Library) (top : List Routine) (p : Profile) :
    (prepareTop lib top p).Pairwise fun a b => b.totalTime ≤ a.totalTime := by
  refine (lib.sorted _).imp fun {a b} h => ?_
  simpa [greaterByTotalTime] using h

theorem mem_elements {r : Routines} {e : Routine} (h : e ∈ elements r) :
    e.methodName ∈ r ∧ (countersOf r e.methodName).totalTime = e.totalTime ∧
      (countersOf r e.methodName).invokeCount = e.invokeCount := by
  obtain ⟨x, hx, rfl⟩ := List.mem_map.mp h
  have hlookup : r.lookup x.1 = some x.2 := AList.mem_lookup_iff.mpr hx
  refine ⟨AList.lookup_isSome.mp (by simp [hlookup]), ?_⟩
  simp [countersOf, hlookup]

theorem map_methodName_elements (r : Routines) : (elements r).map (·.methodName) = r.keys := by
  simp [elements, AList.keys, List.keys, Function.comp_def]

theorem toInt_of_lt {n : ℕ} (h : n < 2 ^ 31) : toInt n = n := by
  rw [toInt, BitVec.toInt_ofNat', Int.bmod_def]
  omega

/-- The symbol and the DSO of a sample. -/
def Sample.pair (s : Sample) : String × String := (s.symbolName, s.dso)

/-- How a pair is shown. -/
def joined (q : String × String) : String := q.1 ++ "@" ++ q.2

/-- A row of the table is that of a pair. -/
structure RowOf (samples : List Sample) (top : List Routine) (idx : ℕ) (q : String × String) :
    Prop where
  name : getTopByIdx top idx = some (joined q)
  time : getCountersByIdx top idx = some (timeOf Sample.pair samples q)
  entries : entriesOf Sample.pair samples q < 2 ^ 31 →
    getInvokeCountByIdx top idx = some (entriesOf Sample.pair samples q : ℤ)

theorem rowOf_of_mem {samples : List Sample} (hinj : {q | ∃ s ∈ samples, s.pair = q}.InjOn joined)
    {top : List Routine} {idx : ℕ} {e : Routine} (he : top[idx]? = some e)
    (hmem : e ∈ elements (profile samples).allRoutines) (hs : s ∈ samples)
    (hname : s.function = e.methodName) : RowOf samples top idx s.pair := by
  have hl : ∀ t ∈ samples, t.pair ∈ {q | ∃ s ∈ samples, s.pair = q} := fun t ht => ⟨t, ht, rfl⟩
  obtain ⟨-, htotal, hinvoke⟩ := mem_elements hmem
  obtain ⟨htime, hcount, -⟩ := profile_counters samples e.methodName
  have hjoined : e.methodName = joined s.pair := hname.symm
  have hfun : Sample.function = joined ∘ Sample.pair := rfl
  rw [htotal, hjoined, hfun, timeOf_map hinj hl (hl s hs)] at htime
  rw [hinvoke, hjoined, hfun, entriesOf_map hinj hl (hl s hs)] at hcount
  refine ⟨?_, ?_, fun hlt => ?_⟩
  · rw [getTopByIdx, he, Option.map_some, hjoined]
  · rw [getCountersByIdx, he, Option.map_some, htime]
  · have hnat : e.invokeCount.toNat = entriesOf Sample.pair samples s.pair := by
      rw [hcount, UInt64.toNat_ofNat', Nat.mod_eq_of_lt (by omega)]
    rw [getInvokeCountByIdx, he, Option.map_some, hnat, toInt_of_lt hlt]

section Pairs

variable {lib : Library} {samples : List Sample}

/-- Every row stands for the function of a sample. -/
theorem exists_sampleOf (lib : Library) (samples : List Sample) : ∃ sampleOf : Routine → Sample,
    ∀ e ∈ prepareTop lib [] (profile samples),
      sampleOf e ∈ samples ∧ (sampleOf e).function = e.methodName := by
  have hrow : ∀ e ∈ prepareTop lib [] (profile samples),
      ∃ s, s ∈ samples ∧ s.function = e.methodName := by
    intro e he
    have hin := (mem_elements ((prepareTop_perm lib (profile samples)).mem_iff.mp he)).1
    exact (profile_counters samples e.methodName).2.2.mp hin
  have : Nonempty Sample := ⟨⟨0, "", ""⟩⟩
  choose! sampleOf hsample using hrow
  exact ⟨sampleOf, hsample⟩

variable {sampleOf : Routine → Sample} (hsample : ∀ e ∈ prepareTop lib [] (profile samples),
  sampleOf e ∈ samples ∧ (sampleOf e).function = e.methodName)

include hsample

theorem mem_pairs (hinj : ∀ a ∈ samples, ∀ b ∈ samples, a.function = b.function → a.pair = b.pair)
    (q : String × String) :
    q ∈ (prepareTop lib [] (profile samples)).map (fun e => (sampleOf e).pair) ↔
      ∃ s ∈ samples, s.pair = q := by
  have hperm := prepareTop_perm lib (profile samples)
  constructor
  · intro hq
    obtain ⟨e, he, rfl⟩ := List.mem_map.mp hq
    exact ⟨sampleOf e, (hsample e he).1, rfl⟩
  · rintro ⟨s, hs, rfl⟩
    have hin : s.function ∈ (prepareTop lib [] (profile samples)).map (·.methodName) := by
      rw [(hperm.map _).mem_iff, map_methodName_elements, ← AList.mem_keys]
      exact (profile_counters samples s.function).2.2.mpr ⟨s, hs, rfl⟩
    obtain ⟨e, he, hname⟩ := List.mem_map.mp hin
    exact List.mem_map.mpr ⟨e, he, hinj _ (hsample e he).1 s hs ((hsample e he).2.trans hname)⟩

theorem pairs_nodup :
    ((prepareTop lib [] (profile samples)).map fun e => (sampleOf e).pair).Nodup := by
  have hpair : ∀ e ∈ prepareTop lib [] (profile samples),
      joined (sampleOf e).pair = e.methodName := fun e he => (hsample e he).2
  refine List.Nodup.of_map joined ?_
  rw [List.map_map, List.map_congr_left (g := (·.methodName)) hpair,
    ((prepareTop_perm lib (profile samples)).map _).nodup_iff, map_methodName_elements]
  exact (profile samples).allRoutines.keys_nodup

theorem length_top
    (hinj : ∀ a ∈ samples, ∀ b ∈ samples, a.function = b.function → a.pair = b.pair) :
    (prepareTop lib [] (profile samples)).length = (samples.map Sample.pair).dedup.length := by
  have hperm : ((prepareTop lib [] (profile samples)).map fun e => (sampleOf e).pair).Perm
      (samples.map Sample.pair).dedup := by
    rw [List.perm_ext_iff_of_nodup (pairs_nodup hsample) (List.nodup_dedup _)]
    intro q
    rw [mem_pairs hsample hinj, List.mem_dedup, List.mem_map]
  simpa using hperm.length_eq

end Pairs

theorem counters_descending (lib : Library) (p : Profile) {i j : ℕ} {t u : UInt64} (hij : i ≤ j)
    (ht : getCountersByIdx (prepareTop lib [] p) i = some t)
    (hu : getCountersByIdx (prepareTop lib [] p) j = some u) : u ≤ t := by
  obtain ⟨a, ha, rfl⟩ := Option.map_eq_some_iff.mp ht
  obtain ⟨b, hb, rfl⟩ := Option.map_eq_some_iff.mp hu
  obtain ⟨hi, rfl⟩ := List.getElem?_eq_some_iff.mp ha
  obtain ⟨hj, rfl⟩ := List.getElem?_eq_some_iff.mp hb
  rcases hij.eq_or_lt with rfl | hlt
  · exact UInt64.le_refl _
  · exact List.pairwise_iff_getElem.mp (prepareTop_sorted lib [] p) i j hi hj hlt

/-- One row for every pair of a symbol and a DSO, by time in descending order. -/
def Faithful (samples : List Sample) (top : List Routine) : Prop :=
  ∃ pairs : List (String × String), pairs.Nodup ∧
    (∀ q, q ∈ pairs ↔ ∃ s ∈ samples, s.pair = q) ∧
    getTopLen top = pairs.length ∧
    (∀ (i : ℕ) (h : i < pairs.length), RowOf samples top i pairs[i]) ∧
    ∀ i j t u, i ≤ j → getCountersByIdx top i = some t → getCountersByIdx top j = some u → u ≤ t

theorem lt_of_toInt_eq {n : ℕ} (h : toInt n = n) : n < 2 ^ 31 := by
  rw [toInt, BitVec.toInt_ofNat', Int.bmod_def] at h
  omega

theorem joined_injective_of_rows {lib : Library} {samples : List Sample}
    {pairs : List (String × String)} (hmem : ∀ q, q ∈ pairs ↔ ∃ s ∈ samples, s.pair = q)
    (hrows : ∀ (i : ℕ) (h : i < pairs.length),
      RowOf samples (prepareTop lib [] (profile samples)) i pairs[i]) :
    ∀ a ∈ samples, ∀ b ∈ samples, a.function = b.function → a.pair = b.pair := by
  have hnames : ((prepareTop lib [] (profile samples)).map (·.methodName)).Nodup := by
    rw [((prepareTop_perm lib (profile samples)).map _).nodup_iff, map_methodName_elements]
    exact (profile samples).allRoutines.keys_nodup
  have hname : ∀ (i : ℕ) (h : i < pairs.length),
      ((prepareTop lib [] (profile samples)).map (·.methodName))[i]? = some (joined pairs[i]) := by
    intro i h
    rw [List.getElem?_map]
    exact (hrows i h).name
  intro a ha b hb hab
  obtain ⟨i, hi, hia⟩ := List.getElem_of_mem ((hmem a.pair).mpr ⟨a, ha, rfl⟩)
  obtain ⟨j, hj, hjb⟩ := List.getElem_of_mem ((hmem b.pair).mpr ⟨b, hb, rfl⟩)
  have hjoined : joined pairs[i] = joined pairs[j] := by
    rw [hia, hjb]
    exact hab
  obtain ⟨hi', hrow⟩ := List.getElem?_eq_some_iff.mp (hname i hi)
  have hsame : i = j := by
    apply (List.getElem?_inj hi' hnames).mp
    rw [hname i hi, hname j hj, hjoined]
  rw [← hia, ← hjb]
  subst hsame
  rfl

/-- The table is that of the pairs exactly when different pairs are joined to different names, and
there are not too many of them to be counted in an `int`. -/
theorem top_table_faithful_iff (lib : Library) (samples : List Sample) :
    Faithful samples (prepareTop lib [] (profile samples)) ↔
      (∀ a ∈ samples, ∀ b ∈ samples, a.function = b.function → a.pair = b.pair) ∧
        (samples.map Sample.pair).dedup.length < 2 ^ 31 := by
  obtain ⟨sampleOf, hsample⟩ := exists_sampleOf lib samples
  constructor
  · rintro ⟨pairs, hnodup, hmem, hlen, hrows, -⟩
    have hinj := joined_injective_of_rows hmem hrows
    have hperm : pairs.Perm (samples.map Sample.pair).dedup := by
      rw [List.perm_ext_iff_of_nodup hnodup (List.nodup_dedup _)]
      intro q
      rw [hmem, List.mem_dedup, List.mem_map]
    rw [getTopLen, length_top hsample hinj, hperm.length_eq] at hlen
    exact ⟨hinj, lt_of_toInt_eq hlen⟩
  · rintro ⟨hinj, hfew⟩
    have hset : {q | ∃ s ∈ samples, s.pair = q}.InjOn joined := by
      rintro _ ⟨a, ha, rfl⟩ _ ⟨b, hb, rfl⟩ h
      exact hinj a ha b hb h
    refine ⟨(prepareTop lib [] (profile samples)).map fun e => (sampleOf e).pair,
      pairs_nodup hsample, mem_pairs hsample hinj, ?_, ?_,
      fun i j t u => counters_descending lib (profile samples)⟩
    · rw [getTopLen, List.length_map, toInt_of_lt (length_top hsample hinj ▸ hfew)]
    · intro i hi
      rw [List.length_map] at hi
      have hin := List.getElem_mem hi
      rw [List.getElem_map]
      exact rowOf_of_mem hset (List.getElem?_eq_getElem hi)
        ((prepareTop_perm lib (profile samples)).mem_iff.mp hin) (hsample _ hin).1
        (hsample _ hin).2

/-- A library that takes the set as it is and sorts by merging. -/
def mergeLibrary : Library where
  iterate := id
  iterate_perm l := .refl l
  sort l := l.mergeSort fun a b => !greaterByTotalTime b a
  sort_perm l := List.mergeSort_perm l _
  sorted l := by
    refine List.Pairwise.imp (R := fun a b => (!greaterByTotalTime b a) = true)
      (fun {a b} h => by simpa using h)
      (List.pairwise_mergeSort (fun a b c hab hbc => ?_) (fun a b => ?_) l)
    · simp only [greaterByTotalTime, Bool.not_eq_true', decide_eq_false_iff_not,
        UInt64.not_lt] at hab hbc ⊢
      exact UInt64.le_trans hbc hab
    · simp only [greaterByTotalTime, Bool.or_eq_true, Bool.not_eq_true', decide_eq_false_iff_not,
        UInt64.not_lt]
      exact UInt64.le_total _ _

/-- Two routines of one DSO. -/
theorem top_table_faithful_two :
    let samples : List Sample := [⟨5, "f", "x"⟩, ⟨9, "g", "x"⟩, ⟨20, "f", "x"⟩]
    timeOf Sample.pair samples ("g", "x") = 11 ∧ entriesOf Sample.pair samples ("f", "x") = 2 ∧
      ∃ pairs : List (String × String), pairs.Nodup ∧
        ∀ (i : ℕ) (h : i < pairs.length),
          RowOf samples (prepareTop mergeLibrary [] (profile samples)) i pairs[i] := by
  obtain ⟨pairs, hnodup, _, _, hrows, _⟩ := (top_table_faithful_iff mergeLibrary
    [⟨5, "f", "x"⟩, ⟨9, "g", "x"⟩, ⟨20, "f", "x"⟩]).mpr ⟨by decide, by decide⟩
  exact ⟨by decide, by decide, pairs, hnodup, hrows⟩

theorem top_table_merges_pairs :
    let samples : List Sample := [⟨1, "a@b", "c"⟩, ⟨5, "a", "b@c"⟩, ⟨9, "x", "y"⟩]
    timeOf Sample.pair samples ("a@b", "c") = 4 ∧ timeOf Sample.pair samples ("a", "b@c") = 4 ∧
      ∀ lib : Library, prepareTop lib [] (profile samples) = [⟨"a@b@c", 8, 1⟩, ⟨"x@y", 0, 1⟩] := by
  refine ⟨by decide, by decide, fun lib => ?_⟩
  set p := profile [⟨1, "a@b", "c"⟩, ⟨5, "a", "b@c"⟩, ⟨9, "x", "y"⟩]
  have hrows : elements p.allRoutines = [⟨"x@y", 0, 1⟩, ⟨"a@b@c", 8, 1⟩] := by decide
  have hperm : (prepareTop lib [] p).Perm [⟨"a@b@c", 8, 1⟩, ⟨"x@y", 0, 1⟩] :=
    ((prepareTop_perm lib p).trans (hrows ▸ .refl _)).trans (.swap _ _ _)
  refine hperm.eq_of_pairwise ?_ (prepareTop_sorted lib [] p) (by decide)
  intro a b ha hb hba hab
  rw [hperm.mem_iff] at ha
  simp only [List.mem_cons, List.not_mem_nil, or_false] at ha hb
  rcases ha with rfl | rfl <;> rcases hb with rfl | rfl <;> first | rfl | (revert hba hab; decide)

end RPerf.Agent
