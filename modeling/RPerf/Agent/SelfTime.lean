import Mathlib.Data.List.AList
import Mathlib.Data.List.SplitBy
import Mathlib.Algebra.BigOperators.Group.List.Basic
import Mathlib.Tactic

/-!
# Self time per routine

`visit_sample` of `profiler-backend.cpp`: samples arrive in time order, and the time between
the first sample of a run of equal routine names and the first sample of the next run is
charged to the routine that was running.
-/

namespace RPerf.Agent

/-- The counters of `struct routine`. -/
structure Counters where
  totalTime : UInt64 := 0
  invokeCount : UInt64 := 0
  deriving DecidableEq, Repr

abbrev Routines := AList fun _ : String => Counters

/-- The globals of the profiler back end that `visit_sample` works on. -/
structure Profile where
  lastRoutine : Option String := none
  routineStartTimestamp : UInt64 := 0
  allRoutines : Routines := ∅

structure Sample where
  timestamp : UInt64
  symbolName : String
  dso : String
  deriving DecidableEq, Repr

/-- The name a sample is accounted under. -/
def Sample.function (s : Sample) : String := s.symbolName ++ "@" ++ s.dso

def charge (routines : Routines) (name : String) (time : UInt64) : Routines :=
  match routines.lookup name with
  | none => routines
  | some c => routines.insert name { c with totalTime := c.totalTime + time }

def enter (routines : Routines) (name : String) : Routines :=
  match routines.lookup name with
  | none => routines.insert name { totalTime := 0, invokeCount := 1 }
  | some c => routines.insert name { c with invokeCount := c.invokeCount + 1 }

def visitSample (p : Profile) (timestamp : UInt64) (symbolName dso : String) : Profile :=
  let function := symbolName ++ "@" ++ dso
  let start := if p.routineStartTimestamp = 0 then timestamp else p.routineStartTimestamp
  if p.lastRoutine = some function then { p with routineStartTimestamp := start }
  else
    let routines :=
      match p.lastRoutine with
      | none => p.allRoutines
      | some r => charge p.allRoutines r (timestamp - start)
    { lastRoutine := some function
      routineStartTimestamp := timestamp
      allRoutines := enter routines function }

def Profile.visit (p : Profile) (s : Sample) : Profile :=
  visitSample p s.timestamp s.symbolName s.dso

/-- The back end after a sequence of samples. -/
def profile (samples : List Sample) : Profile := samples.foldl Profile.visit {}

def sameRoutine (a b : Sample) : Bool := a.function == b.function

def runs (samples : List Sample) : List (List Sample) :=
  samples.splitBy sameRoutine

/-- The first sample of every run. -/
def firsts (samples : List Sample) : List Sample := (runs samples).filterMap List.head?

def gaps : List Sample → List (String × ℕ)
  | a :: b :: l => (a.function, b.timestamp.toNat - a.timestamp.toNat) :: gaps (b :: l)
  | _ => []

/-- The time charged to a routine by a list of gaps. -/
def spent (name : String) (l : List (String × ℕ)) : ℕ :=
  ((l.filter (·.1 = name)).map Prod.snd).sum

/-- The sum of a quantity over all routines. -/
def total (f : Counters → ℕ) (routines : Routines) : ℕ :=
  (routines.entries.map fun e => f e.2).sum

theorem total_insert (f : Counters → ℕ) (r : Routines) (name : String) (c : Counters) :
    total f (r.insert name c) + ((r.lookup name).map f).getD 0 = total f r + f c := by
  by_cases hmem : name ∈ r
  · obtain ⟨b, l₁, l₂, hno, hr, hk⟩ := List.exists_of_kerase (AList.mem_keys.mp hmem)
    have hl : r.lookup name = some b := by
      rw [← Option.mem_def, AList.mem_lookup_iff, hr]
      simp
    simp only [total, AList.entries_insert, hk, List.map_cons, List.sum_cons, hl]
    simp only [hr, List.map_cons, List.map_append, List.sum_cons, List.sum_append,
      Option.map_some, Option.getD_some]
    omega
  · simp only [total, AList.lookup_eq_none.mpr hmem, AList.entries_insert_of_notMem hmem,
      List.map_cons, List.sum_cons, Option.map_none, Option.getD_none]
    omega

theorem le_total (f : Counters → ℕ) {r : Routines} {name : String} {c : Counters}
    (h : r.lookup name = some c) : f c ≤ total f r := by
  have hmem := AList.mem_lookup_iff.mp (Option.mem_def.mpr h)
  exact List.single_le_sum (fun _ _ => Nat.zero_le _) _ (List.mem_map.mpr ⟨_, hmem, rfl⟩)

def countersOf (routines : Routines) (name : String) : Counters := (routines.lookup name).getD {}

variable (r : Routines)

theorem countersOf_charge (a name : String) (t : UInt64) (ha : a ∈ r) :
    countersOf (charge r a t) name =
      if name = a then { countersOf r a with totalTime := (countersOf r a).totalTime + t }
      else countersOf r name := by
  obtain ⟨c, hc⟩ := Option.isSome_iff_exists.mp (AList.lookup_isSome.mpr ha)
  by_cases h : name = a
  · subst h
    simp [countersOf, charge, hc]
  · simp [countersOf, charge, hc, AList.lookup_insert_ne h, h]

theorem countersOf_enter (a name : String) :
    countersOf (enter r a) name =
      if name = a then { countersOf r a with invokeCount := (countersOf r a).invokeCount + 1 }
      else countersOf r name := by
  cases hc : r.lookup a with
  | none =>
    by_cases h : name = a
    · subst h
      simp [countersOf, enter, hc]
    · simp [countersOf, enter, hc, AList.lookup_insert_ne h, h]
  | some c =>
    by_cases h : name = a
    · subst h
      simp [countersOf, enter, hc]
    · simp [countersOf, enter, hc, AList.lookup_insert_ne h, h]

theorem mem_charge (a name : String) (t : UInt64) : name ∈ charge r a t ↔ name ∈ r := by
  cases hc : r.lookup a with
  | none => simp [charge, hc]
  | some c =>
    have ha : a ∈ r := AList.lookup_isSome.mp (by simp [hc])
    simp only [charge, hc, AList.mem_insert, or_iff_right_iff_imp]
    rintro rfl
    exact ha

theorem mem_enter (a name : String) : name ∈ enter r a ↔ name = a ∨ name ∈ r := by
  cases hc : r.lookup a <;> simp [enter, hc]

theorem total_charge {f : Counters → ℕ} {r : Routines} {a : String} {t : UInt64} {n : ℕ}
    (ha : a ∈ r) (hf : f { countersOf r a with totalTime := (countersOf r a).totalTime + t } =
      f (countersOf r a) + n) : total f (charge r a t) = total f r + n := by
  obtain ⟨c, hc⟩ := Option.isSome_iff_exists.mp (AList.lookup_isSome.mpr ha)
  have h := total_insert f r a { c with totalTime := c.totalTime + t }
  simp only [hc, Option.map_some, Option.getD_some] at h
  simp only [countersOf, hc, Option.getD_some] at hf
  simp only [charge, hc]
  omega

theorem total_enter (a : String) :
    total (·.totalTime.toNat) (enter r a) = total (·.totalTime.toNat) r := by
  cases hc : r.lookup a with
  | none =>
    have h := total_insert (·.totalTime.toNat) r a { totalTime := 0, invokeCount := 1 }
    simpa [enter, hc] using h
  | some c =>
    have h := total_insert (·.totalTime.toNat) r a { c with invokeCount := c.invokeCount + 1 }
    simp only [hc, Option.map_some, Option.getD_some] at h
    simp only [enter, hc]
    omega

theorem gaps_snoc (h s : Sample) : ∀ hs : List Sample,
    gaps (hs ++ [h] ++ [s]) =
      gaps (hs ++ [h]) ++ [(h.function, s.timestamp.toNat - h.timestamp.toNat)]
  | [] => rfl
  | [a] => rfl
  | a :: b :: l => by
    have ih := gaps_snoc h s (b :: l)
    simpa [gaps] using ih

theorem spent_snoc (name : String) (l : List (String × ℕ)) (e : String × ℕ) :
    spent name (l ++ [e]) = spent name l + if e.1 = name then e.2 else 0 := by
  by_cases h : e.1 = name <;> simp [spent, List.filter_append, h]

structure Accounts (p : Profile) (hs : List Sample) (h : Sample) (first : UInt64) : Prop where
  last : p.lastRoutine = some h.function
  start : p.routineStartTimestamp = h.timestamp
  mem : ∀ name, name ∈ p.allRoutines ↔ ∃ s ∈ hs ++ [h], s.function = name
  time : ∀ name,
    (countersOf p.allRoutines name).totalTime.toNat = spent name (gaps (hs ++ [h]))
  count : ∀ name, (countersOf p.allRoutines name).invokeCount.toNat =
    ((hs ++ [h]).countP (·.function = name)) % 2 ^ 64
  sum : total (·.totalTime.toNat) p.allRoutines + first.toNat = h.timestamp.toNat

theorem foldl_visit_same {p : Profile} {name : String} (hl : p.lastRoutine = some name)
    (hs : p.routineStartTimestamp ≠ 0) {l : List Sample} (hf : ∀ s ∈ l, s.function = name) :
    l.foldl Profile.visit p = p := by
  induction l with
  | nil => rfl
  | cons s l ih =>
    have hv : p.visit s = p := by
      have hfs : s.symbolName ++ "@" ++ s.dso = name := hf s (by simp)
      simp [Profile.visit, visitSample, hfs, hl, hs]
      rw [← hl]
    rw [List.foldl_cons, hv]
    exact ih fun t ht => hf t (by simp [ht])

theorem routineStart_profile (l : List Sample) :
    (profile l).routineStartTimestamp = 0 ∨
      ∃ s ∈ l, (profile l).routineStartTimestamp = s.timestamp := by
  induction l using List.reverseRecOn with
  | nil => exact .inl rfl
  | append_singleton l s ih =>
    have hvisit : profile (l ++ [s]) = (profile l).visit s := by
      simp only [profile, List.foldl_append, List.foldl_cons, List.foldl_nil]
    have hstart : ((profile l).visit s).routineStartTimestamp = s.timestamp ∨
        ((profile l).visit s).routineStartTimestamp = (profile l).routineStartTimestamp := by
      simp only [Profile.visit, visitSample]
      split_ifs <;> simp
    rw [hvisit]
    rcases hstart with h | h
    · exact .inr ⟨s, by simp, h⟩
    · rcases ih with h0 | ⟨a, ha, heq⟩
      · exact .inl (h.trans h0)
      · exact .inr ⟨a, by simp [ha], h.trans heq⟩

theorem visit_first (s : Sample) : Accounts (({} : Profile).visit s) [] s s.timestamp := by
  have hp : ({} : Profile).visit s =
      { lastRoutine := some s.function, routineStartTimestamp := s.timestamp,
        allRoutines := enter ∅ s.function } := by
    simp [Profile.visit, visitSample, Sample.function]
  rw [hp]
  refine ⟨rfl, rfl, ?_, ?_, ?_, ?_⟩
  · intro name
    simp [mem_enter, eq_comm]
  · intro name
    rw [countersOf_enter]
    split_ifs <;> simp [countersOf, gaps, spent]
  · intro name
    rw [countersOf_enter]
    by_cases h : name = s.function
    · simp [h, countersOf]
    · have h' : s.function ≠ name := Ne.symm h
      simp [h, h', countersOf]
  · rw [total_enter]
    simp [total]

theorem Accounts.visit {p : Profile} {hs : List Sample} {h s : Sample} {first : UInt64}
    (ha : Accounts p hs h first) (hne : s.function ≠ h.function) (h0 : h.timestamp ≠ 0)
    (hle : h.timestamp ≤ s.timestamp) : Accounts (p.visit s) (hs ++ [h]) s first := by
  set d := s.timestamp - h.timestamp with hd
  have hdn : d.toNat = s.timestamp.toNat - h.timestamp.toNat := UInt64.toNat_sub_of_le _ _ hle
  have hlen : h.timestamp.toNat ≤ s.timestamp.toNat := hle
  have hlt := s.timestamp.toNat_lt
  have hmem : h.function ∈ p.allRoutines := (ha.mem _).mpr ⟨h, by simp, rfl⟩
  have hp : p.visit s =
      { lastRoutine := some s.function, routineStartTimestamp := s.timestamp,
        allRoutines := enter (charge p.allRoutines h.function d) s.function } := by
    have hne' : some h.function ≠ some (s.symbolName ++ "@" ++ s.dso) :=
      fun e => hne (Option.some.inj e).symm
    simp only [Profile.visit, visitSample, ha.last, ha.start, if_neg h0, if_neg hne']
    rfl
  -- the account that is closed stays below the time that has passed, so nothing wraps
  have hfit : (countersOf p.allRoutines h.function).totalTime.toNat + d.toNat < 2 ^ 64 := by
    obtain ⟨c, hc⟩ := Option.isSome_iff_exists.mp (AList.lookup_isSome.mpr hmem)
    have hle := le_total (·.totalTime.toNat) hc
    have hsum := ha.sum
    simp only [countersOf, hc, Option.getD_some]
    omega
  have hadd : ((countersOf p.allRoutines h.function).totalTime + d).toNat =
      (countersOf p.allRoutines h.function).totalTime.toNat + d.toNat := by
    rw [UInt64.toNat_add, Nat.mod_eq_of_lt hfit]
  rw [hp]
  refine ⟨rfl, rfl, ?_, ?_, ?_, ?_⟩
  · intro name
    rw [mem_enter, mem_charge, ha.mem]
    simp only [List.mem_append, List.mem_singleton]
    grind
  · intro name
    have htime : (countersOf (charge p.allRoutines h.function d) name).totalTime.toNat =
        spent name (gaps (hs ++ [h])) + if h.function = name then d.toNat else 0 := by
      rw [countersOf_charge _ _ _ _ hmem]
      by_cases hn : name = h.function
      · rw [if_pos hn, if_pos hn.symm, hadd, ha.time, hn]
      · rw [if_neg hn, if_neg (Ne.symm hn), ha.time, Nat.add_zero]
    rw [gaps_snoc, spent_snoc, ← hdn, ← htime, countersOf_enter]
    split_ifs with hn
    · rw [hn]
    · rfl
  · intro name
    have hcount : (countersOf (charge p.allRoutines h.function d) name).invokeCount.toNat =
        ((hs ++ [h]).countP (·.function = name)) % 2 ^ 64 := by
      rw [countersOf_charge _ _ _ _ hmem, ← ha.count]
      split_ifs with hn
      · rw [hn]
      · rfl
    rw [countersOf_enter, @List.countP_append _ _ (hs ++ [h]) [s]]
    by_cases hn : name = s.function
    · rw [if_pos hn, UInt64.toNat_add, ← hn, hcount]
      simp [hn]
    · have hn' : s.function ≠ name := Ne.symm hn
      rw [if_neg hn, hcount]
      simp [hn']
  · rw [total_enter, total_charge hmem hadd]
    have hsum := ha.sum
    omega

theorem function_of_isChain {a : Sample} {l : List Sample}
    (h : (a :: l).IsChain fun x y => sameRoutine x y = true) :
    ∀ s ∈ a :: l, s.function = a.function := by
  induction l generalizing a with
  | nil => simp
  | cons b l ih =>
    rw [List.isChain_cons_cons] at h
    have hab : a.function = b.function := by simpa [sameRoutine] using h.1
    intro s hs
    rw [hab]
    rcases List.mem_cons.mp hs with rfl | hs
    · exact hab
    · exact ih h.2 s hs

def Adjacent (a b : List Sample) : Prop :=
  ∃ ha hb, sameRoutine (a.getLast ha) (b.head hb) = false

theorem Accounts.foldl {first : UInt64} (gs : List (List Sample)) :
    ∀ {p : Profile} {hs : List Sample} {h : Sample} {t : List Sample}, Accounts p hs h first →
      (∀ s ∈ t, s.function = h.function) →
      (∀ g ∈ gs, g.IsChain fun x y => sameRoutine x y = true) →
      ((h :: t) :: gs).IsChain Adjacent →
      (∀ s ∈ h :: gs.flatten, s.timestamp ≠ 0) →
      (h :: gs.flatten).Pairwise (fun a b => a.timestamp ≤ b.timestamp) →
      ∃ hs' h', Accounts (gs.flatten.foldl Profile.visit p) hs' h' first ∧
        hs' ++ [h'] = hs ++ [h] ++ gs.filterMap List.head? := by
  induction gs with
  | nil =>
    intro p hs h t ha _ _ _ _ _
    exact ⟨hs, h, ha, by simp⟩
  | cons g gs ih =>
    intro p hs h t ha ht hg hadj h0 hle
    rw [List.isChain_cons_cons] at hadj
    obtain ⟨⟨ha', hb', hdiff⟩, hadj⟩ := hadj
    obtain ⟨s, l, rfl⟩ := List.exists_cons_of_ne_nil hb'
    have hrun := function_of_isChain (hg (s :: l) (by simp))
    have hlast : ((h :: t).getLast ha').function = h.function := by
      rcases List.mem_cons.mp (List.getLast_mem ha') with heq | hmem
      · rw [heq]
      · exact ht _ hmem
    have hne : s.function ≠ h.function := by
      intro heq
      simp [sameRoutine, hlast, heq] at hdiff
    have hstep := ha.visit hne (h0 h (by simp)) (List.rel_of_pairwise_cons hle (by simp))
    have hsame := foldl_visit_same hstep.last (hstep.start ▸ h0 s (by simp))
      (fun x hx => hrun x (List.mem_cons_of_mem s hx))
    have hsub : (s :: gs.flatten).Sublist (h :: ((s :: l) :: gs).flatten) :=
      ((List.sublist_append_right l gs.flatten).cons_cons s).cons h
    obtain ⟨hs', h', hacc, hfirsts⟩ := ih (t := l) hstep
      (fun x hx => hrun x (List.mem_cons_of_mem s hx)) (fun g' hg' => hg g' (by simp [hg']))
      hadj (fun x hx => h0 x (hsub.subset hx)) (hle.sublist hsub)
    refine ⟨hs', h', ?_, ?_⟩
    · rw [List.flatten_cons, List.foldl_append, List.foldl_cons, hsame]
      exact hacc
    · rw [hfirsts]
      simp

theorem profile_accounts {samples : List Sample} (hne : samples ≠ [])
    (h0 : ∀ s ∈ samples, s.timestamp ≠ 0)
    (hle : samples.Pairwise fun a b => a.timestamp ≤ b.timestamp) :
    ∃ hs h, Accounts (profile samples) hs h (samples.head hne).timestamp ∧
      firsts samples = hs ++ [h] := by
  have hflat : (runs samples).flatten = samples := List.flatten_splitBy _ _
  have hchain : ∀ g ∈ runs samples, g.IsChain fun x y => sameRoutine x y = true :=
    fun g hg => List.isChain_of_mem_splitBy hg
  have hadj : (runs samples).IsChain Adjacent := List.isChain_getLast_head_splitBy _ _
  have hnil : [] ∉ runs samples := List.nil_notMem_splitBy _ _
  obtain ⟨g, gs, hruns⟩ : ∃ g gs, runs samples = g :: gs :=
    List.exists_cons_of_ne_nil (List.splitBy_ne_nil.mpr hne)
  obtain ⟨s, l, rfl⟩ : ∃ s l, g = s :: l :=
    List.exists_cons_of_ne_nil (by rintro rfl; exact hnil (by simp [hruns]))
  rw [hruns] at hflat hchain hadj
  subst hflat
  have hrun := function_of_isChain (hchain (s :: l) (by simp))
  have hfirst := visit_first s
  have hsame := foldl_visit_same hfirst.last (hfirst.start ▸ h0 s (by simp))
    (fun x hx => hrun x (List.mem_cons_of_mem s hx))
  have hsub : (s :: gs.flatten).Sublist ((s :: l) :: gs).flatten :=
    (List.sublist_append_right l gs.flatten).cons_cons s
  obtain ⟨hs', h', hacc, hfirsts⟩ := hfirst.foldl gs
    (fun x hx => hrun x (List.mem_cons_of_mem s hx)) (fun g' hg' => hchain g' (by simp [hg']))
    hadj (fun x hx => h0 x (hsub.subset hx)) (hle.sublist hsub)
  have hprofile : profile ((s :: l) :: gs).flatten =
      gs.flatten.foldl Profile.visit (({} : Profile).visit s) := by
    rw [profile, List.flatten_cons, List.foldl_append, List.foldl_cons, hsame]
  refine ⟨hs', h', hprofile ▸ hacc, ?_⟩
  rw [firsts, hruns, hfirsts]
  simp

/-- Every routine is charged the time from the first sample of each of its runs to the first sample
of the next run, and nothing is lost. -/
theorem profile_conserves_time (samples : List Sample) (hne : samples ≠ [])
    (h0 : ∀ s ∈ samples, s.timestamp ≠ 0)
    (hle : samples.Pairwise fun a b => a.timestamp ≤ b.timestamp) :
    (∀ name, name ∈ (profile samples).allRoutines ↔ ∃ s ∈ firsts samples, s.function = name) ∧
    (∀ name c, (profile samples).allRoutines.lookup name = some c →
      c.totalTime.toNat = spent name (gaps (firsts samples)) ∧
      c.invokeCount.toNat = (firsts samples).countP (·.function = name) % 2 ^ 64 ∧
      ((firsts samples).countP (·.function = name) < 2 ^ 64 →
        c.invokeCount.toNat = (firsts samples).countP (·.function = name))) ∧
    ∃ last, (firsts samples).getLast? = some last ∧
      (samples.head hne).timestamp ≤ last.timestamp ∧
      total (·.totalTime.toNat) (profile samples).allRoutines =
        last.timestamp.toNat - (samples.head hne).timestamp.toNat := by
  obtain ⟨hs, h, hacc, hf⟩ := profile_accounts hne h0 hle
  rw [hf]
  refine ⟨hacc.mem, ?_, h, by simp, ?_, ?_⟩
  · intro name c hc
    have htime := hacc.time name
    have hcount := hacc.count name
    simp only [countersOf, hc, Option.getD_some] at htime hcount
    exact ⟨htime, hcount, fun hlt => by rw [hcount, Nat.mod_eq_of_lt hlt]⟩
  · have hsum := hacc.sum
    rw [UInt64.le_iff_toNat_le]
    omega
  · have hsum := hacc.sum
    omega

/-- Two samples of one routine, one of another, and the first routine again. -/
theorem profile_conserves_time_reentered :
    let samples : List Sample := [⟨5, "f", "x"⟩, ⟨6, "f", "x"⟩, ⟨9, "g", "x"⟩, ⟨20, "f", "x"⟩]
    gaps (firsts samples) = [("f@x", 4), ("g@x", 11)] ∧
      ∀ name c, (profile samples).allRoutines.lookup name = some c →
        c.totalTime.toNat = spent name (gaps (firsts samples)) :=
  ⟨by decide, fun name c hc =>
    ((profile_conserves_time [⟨5, "f", "x"⟩, ⟨6, "f", "x"⟩, ⟨9, "g", "x"⟩, ⟨20, "f", "x"⟩]
      (by decide) (by decide) (by decide)).2.1 name c hc).1⟩

variable (n : ℕ)

def pingPong : List Sample :=
  (List.replicate n [(⟨1, "f", "x"⟩ : Sample), ⟨1, "g", "x"⟩]).flatten

theorem pingPong_succ : pingPong (n + 1) = ⟨1, "f", "x"⟩ :: ⟨1, "g", "x"⟩ :: pingPong n := by
  simp [pingPong, List.replicate_succ]

theorem mem_pingPong {n : ℕ} {s : Sample} (h : s ∈ pingPong n) :
    s = ⟨1, "f", "x"⟩ ∨ s = ⟨1, "g", "x"⟩ := by
  induction n with
  | zero => simp [pingPong] at h
  | succ n ih =>
    rw [pingPong_succ, List.mem_cons, List.mem_cons] at h
    tauto

theorem firsts_pingPong : firsts (pingPong n) = pingPong n := by
  have hadj : ((pingPong n).map fun s => [s]).IsChain Adjacent := by
    induction n with
    | zero => simp [pingPong]
    | succ n ih =>
      rw [pingPong_succ, List.map_cons, List.map_cons, List.isChain_cons_cons]
      refine ⟨⟨by simp, by simp, by decide⟩, ?_⟩
      cases n with
      | zero => simp [pingPong]
      | succ n =>
        rw [pingPong_succ, List.map_cons, List.isChain_cons_cons]
        refine ⟨⟨by simp, by simp, by decide⟩, ?_⟩
        rw [pingPong_succ] at ih
        exact ih
  have hruns := List.splitBy_flatten (l := (pingPong n).map fun s => [s]) (by simp)
    (by simp) hadj
  have hflat : ((pingPong n).map fun s => [s]).flatten = pingPong n := by
    simp [← List.flatMap_def]
  rw [hflat] at hruns
  rw [firsts, runs, hruns]
  simp [List.filterMap_map, Function.comp_def]

theorem countP_pingPong : (pingPong n).countP (·.function = "f@x") = n := by
  induction n with
  | zero => rfl
  | succ n ih =>
    rw [pingPong_succ, List.countP_cons_of_pos (by decide), List.countP_cons_of_neg (by decide), ih]

/-- A routine that runs `2 ^ 64` times is counted zero times. -/
theorem invokeCount_wraps :
    ∃ samples : List Sample, samples ≠ [] ∧ (∀ s ∈ samples, s.timestamp ≠ 0) ∧
      samples.Pairwise (fun a b => a.timestamp ≤ b.timestamp) ∧
      ∃ name c, (profile samples).allRoutines.lookup name = some c ∧
        (firsts samples).countP (·.function = name) = 2 ^ 64 ∧ c.invokeCount = 0 := by
  have hts : ∀ s ∈ pingPong (2 ^ 64), s.timestamp = 1 := by
    intro s hs
    rcases mem_pingPong hs with rfl | rfl <;> rfl
  have hne : pingPong (2 ^ 64) ≠ [] := by
    rw [show 2 ^ 64 = (2 ^ 64 - 1) + 1 by norm_num, pingPong_succ]
    simp
  have h0 : ∀ s ∈ pingPong (2 ^ 64), s.timestamp ≠ 0 := fun s hs => by simp [hts s hs]
  have hle : (pingPong (2 ^ 64)).Pairwise fun a b => a.timestamp ≤ b.timestamp :=
    List.pairwise_of_forall_mem_list fun a ha b hb => by simp [hts a ha, hts b hb]
  obtain ⟨hs, h, hacc, hf⟩ := profile_accounts hne h0 hle
  rw [firsts_pingPong] at hf
  have hcountP := countP_pingPong (2 ^ 64)
  have hmem : "f@x" ∈ (profile (pingPong (2 ^ 64))).allRoutines := by
    rw [hacc.mem, ← hf]
    obtain ⟨s, hs, hfs⟩ := List.countP_pos_iff.mp (hcountP ▸ (by norm_num : 0 < 2 ^ 64))
    exact ⟨s, hs, by simpa using hfs⟩
  obtain ⟨c, hc⟩ := Option.isSome_iff_exists.mp (AList.lookup_isSome.mpr hmem)
  refine ⟨_, hne, h0, hle, "f@x", c, hc, by rw [firsts_pingPong, hcountP], ?_⟩
  have hcount := hacc.count "f@x"
  rw [← hf, hcountP] at hcount
  simp only [countersOf, hc, Option.getD_some] at hcount
  exact UInt64.toNat_inj.mp (by simpa using hcount)

end RPerf.Agent
