import Mathlib.Data.List.AList
import Mathlib.Tactic

/-!
# The map of compiled methods

`cbCompiledMethodLoad`, `cbCompiledMethodUnLoad` and `dump_perf_file` of `jvmti-agent.cpp`.
-/

namespace RPerf.Agent

/-- `struct compiled_method_info`. -/
structure CompiledMethodInfo where
  name : String
  startAddr : UInt64
  length : UInt64
  deriving DecidableEq, Repr

def insertInner (m : CompiledMethodInfo) : List CompiledMethodInfo → List CompiledMethodInfo
  | [] => [m]
  | x :: l =>
    if m.startAddr < x.startAddr then m :: x :: l
    else if x.startAddr < m.startAddr then x :: insertInner m l
    else x :: l

/-- The arguments of a load event, with the text `sig_string` finds for the method. -/
structure Load (M : Type) where
  method : M
  codeSize : Int32
  codeAddr : UInt64
  entry : String
  deriving DecidableEq, Repr

inductive Event (M : Type)
  | load (l : Load M)
  | unload (method : M) (codeAddr : UInt64)
  deriving DecidableEq, Repr

abbrev Methods (M : Type) := AList fun _ : M => List CompiledMethodInfo

variable {M : Type} [DecidableEq M]

section

variable (methods : Methods M)

def getJitInfo (method : M) : List CompiledMethodInfo × Methods M :=
  match methods.lookup method with
  | some inner => (inner, methods)
  | none => ([], methods.insert method [])

/-- The record of a load. -/
def Load.compiledMethod (l : Load M) : CompiledMethodInfo :=
  { name := l.entry, startAddr := l.codeAddr, length := l.codeSize.toInt64.toUInt64 }

def cbCompiledMethodLoad (l : Load M) : Methods M :=
  let (_, methods) := getJitInfo methods l.method
  -- `info.inner_methods.clear()`, then the insertion
  methods.insert l.method (insertInner l.compiledMethod [])

def cbCompiledMethodUnLoad (method : M) : Methods M :=
  methods.erase method

def step : Event M → Methods M
  | .load l => cbCompiledMethodLoad methods l
  | .unload method _ => cbCompiledMethodUnLoad methods method

/-- One line of the perf map file. -/
structure Entry where
  start : UInt64
  length : UInt32
  name : String
  deriving DecidableEq, Repr

def CompiledMethodInfo.entry (m : CompiledMethodInfo) : Entry :=
  { start := m.startAddr, length := m.length.toUInt32, name := m.name }

/-- The lines `dump_perf_file` writes. -/
def dumpPerfFile : List Entry :=
  methods.entries.flatMap fun r => r.2.map CompiledMethodInfo.entry

/-- The store after a sequence of events. -/
def methodsAfter (events : List (Event M)) : Methods M := events.foldl step ∅

/-- The line a code blob should have. -/
def Load.line (l : Load M) : Entry :=
  { start := l.codeAddr, length := l.codeSize.toUInt32, name := l.entry }

def liveStep (live : List (Load M)) : Event M → List (Load M)
  | .load l => l :: live
  | .unload method addr => live.filter fun l => ¬ (l.method = method ∧ l.codeAddr = addr)

/-- The blobs loaded and not unloaded. -/
def liveAfter (events : List (Event M)) : List (Load M) := events.foldl liveStep []

def Allowed (live : List (Load M)) : Event M → Prop
  | .load _ => True
  | .unload method addr => ∃ l ∈ live, l.method = method ∧ l.codeAddr = addr

/-- A load finds no other blob of its method live. -/
def Alone (live : List (Load M)) : Event M → Prop
  | .load l => ∀ x ∈ live, x.method = l.method → x = l
  | .unload _ _ => True

def Along (P : List (Load M) → Event M → Prop) : List (Load M) → List (Event M) → Prop
  | _, [] => True
  | live, e :: events => P live e ∧ Along P (liveStep live e) events

theorem Along.of_append {P : List (Load M) → Event M → Prop} {post : List (Event M)} :
    ∀ {pre : List (Event M)} {live : List (Load M)}, Along P live (pre ++ post) → Along P live pre
  | [], _, _ => trivial
  | _ :: _, _, h => ⟨h.1, h.2.of_append⟩

theorem toUInt32_toInt64 (x : Int32) : x.toInt64.toUInt64.toUInt32 = x.toUInt32 := by
  apply UInt32.toBitVec_inj.mp
  change BitVec.setWidth 32 (BitVec.signExtend 64 x.toBitVec) = x.toBitVec
  ext i hi
  simp only [BitVec.getElem_setWidth, BitVec.getLsbD_signExtend]
  grind

omit [DecidableEq M] in
theorem Load.entry_compiledMethod (l : Load M) : l.compiledMethod.entry = l.line := by
  simp [Load.compiledMethod, CompiledMethodInfo.entry, Load.line, toUInt32_toInt64]

def innerOf (method : M) : List CompiledMethodInfo :=
  (methods.lookup method).getD []

theorem mem_dumpPerfFile {methods : Methods M} {x : Entry} :
    x ∈ dumpPerfFile methods ↔ ∃ m, ∃ i ∈ innerOf methods m, i.entry = x := by
  simp only [dumpPerfFile, List.mem_flatMap, List.mem_map, innerOf]
  constructor
  · rintro ⟨⟨m, inner⟩, hmem, i, hi, rfl⟩
    have hl := AList.mem_lookup_iff.mpr hmem
    rw [Option.mem_def] at hl
    exact ⟨m, i, by simpa [hl] using hi, rfl⟩
  · rintro ⟨m, i, hi, rfl⟩
    cases hl : methods.lookup m with
    | none => simp [hl] at hi
    | some inner =>
      refine ⟨⟨m, inner⟩, AList.mem_lookup_iff.mp (Option.mem_def.mpr hl), i, ?_, rfl⟩
      simpa [hl] using hi

theorem innerOf_load (l : Load M) (m : M) :
    innerOf (cbCompiledMethodLoad methods l) m =
      if m = l.method then [l.compiledMethod] else innerOf methods m := by
  by_cases hm : m = l.method
  · subst hm
    simp [innerOf, cbCompiledMethodLoad, insertInner]
  · cases hl : methods.lookup l.method <;>
      simp [innerOf, cbCompiledMethodLoad, getJitInfo, hl, hm, AList.lookup_insert_ne hm]

theorem innerOf_unload (method m : M) :
    innerOf (cbCompiledMethodUnLoad methods method) m =
      if m = method then [] else innerOf methods m := by
  by_cases hm : m = method
  · subst hm
    simp [innerOf, cbCompiledMethodUnLoad]
  · simp [innerOf, cbCompiledMethodUnLoad, hm, AList.lookup_erase_ne hm]

end

structure Tracks (methods : Methods M) (live : List (Load M)) : Prop where
  single : ∀ l ∈ live, ∀ l' ∈ live, l.method = l'.method → l = l'
  inner : ∀ m i, i ∈ innerOf methods m ↔ ∃ l ∈ live, l.method = m ∧ l.compiledMethod = i

theorem Tracks.step {methods : Methods M} {live : List (Load M)} {e : Event M}
    (h : Tracks methods live) (hallowed : Allowed live e) (halone : Alone live e) :
    Tracks (step methods e) (liveStep live e) := by
  cases e with
  | load l =>
    constructor
    · simp only [liveStep, List.mem_cons]
      rintro a (rfl | ha) b (rfl | hb) hab
      · rfl
      · exact (halone b hb hab.symm).symm
      · exact halone a ha hab
      · exact h.single a ha b hb hab
    · intro m i
      simp only [Agent.step, liveStep, innerOf_load, List.mem_cons]
      split_ifs with hm
      · subst hm
        simp only [List.mem_singleton]
        constructor
        · rintro rfl
          exact ⟨l, .inl rfl, rfl, rfl⟩
        · rintro ⟨x, rfl | hx, hxm, rfl⟩
          · rfl
          · rw [halone x hx hxm]
      · rw [h.inner]
        constructor
        · rintro ⟨x, hx, hxm, hxi⟩
          exact ⟨x, .inr hx, hxm, hxi⟩
        · rintro ⟨x, rfl | hx, hxm, hxi⟩
          · exact absurd hxm.symm hm
          · exact ⟨x, hx, hxm, hxi⟩
  | unload method addr =>
    obtain ⟨u, hu, hum, hua⟩ := hallowed
    have hlive : ∀ x, x ∈ liveStep live (.unload method addr) ↔ x ∈ live ∧ x.method ≠ method := by
      intro x
      simp only [liveStep, List.mem_filter, decide_eq_true_eq, not_and]
      refine and_congr_right fun hx => ⟨fun hna hxm => ?_, fun hne hxm => absurd hxm hne⟩
      have := h.single x hx u hu (hxm.trans hum.symm)
      exact hna hxm (this ▸ hua)
    constructor
    · intro a ha b hb hab
      exact h.single a ((hlive a).mp ha).1 b ((hlive b).mp hb).1 hab
    · intro m i
      simp only [Agent.step, innerOf_unload, hlive]
      split_ifs with hm
      · simp only [List.not_mem_nil, false_iff]
        rintro ⟨x, ⟨_, hne⟩, hxm, _⟩
        exact hne (hxm.trans hm)
      · rw [h.inner]
        constructor
        · rintro ⟨x, hx, hxm, hxi⟩
          exact ⟨x, ⟨hx, hxm ▸ hm⟩, hxm, hxi⟩
        · rintro ⟨x, ⟨hx, _⟩, hxm, hxi⟩
          exact ⟨x, hx, hxm, hxi⟩

theorem Tracks.foldl {events : List (Event M)} :
    ∀ {methods : Methods M} {live : List (Load M)}, Tracks methods live →
      Along Allowed live events → Along Alone live events →
      Tracks (events.foldl Agent.step methods) (events.foldl liveStep live) := by
  induction events with
  | nil => exact fun h _ _ => h
  | cons e events ih => exact fun h hall hone => ih (h.step hall.1 hone.1) hall.2 hone.2

/-- As long as every load finds no other blob of its method live, the file lists exactly the live
blobs after every event. -/
theorem dumpPerfFile_lists_live (events : List (Event M)) (hallowed : Along Allowed [] events)
    (halone : Along Alone [] events) :
    ∀ pre, pre <+: events →
      ∀ x, x ∈ dumpPerfFile (methodsAfter pre) ↔ ∃ l ∈ liveAfter pre, l.line = x := by
  rintro pre ⟨post, rfl⟩ x
  have hempty : Tracks (∅ : Methods M) [] := ⟨by simp, by simp [innerOf]⟩
  have htracks : Tracks (methodsAfter pre) (liveAfter pre) :=
    hempty.foldl hallowed.of_append halone.of_append
  rw [mem_dumpPerfFile]
  constructor
  · rintro ⟨m, i, hi, rfl⟩
    obtain ⟨l, hl, _, rfl⟩ := (htracks.inner m i).mp hi
    exact ⟨l, hl, l.entry_compiledMethod.symm⟩
  · rintro ⟨l, hl, rfl⟩
    exact ⟨l.method, l.compiledMethod, (htracks.inner _ _).mpr ⟨l, hl, rfl, rfl⟩,
      l.entry_compiledMethod⟩

/-- A method is compiled, unloaded and compiled again. -/
theorem dumpPerfFile_lists_live_recompiled :
    let a : Load ℕ := { method := 1, codeSize := 16, codeAddr := 0x1000, entry := "m" }
    let b : Load ℕ := { method := 1, codeSize := 32, codeAddr := 0x2000, entry := "m" }
    let events := [Event.load a, .unload 1 0x1000, .load b]
    liveAfter events = [b] ∧ ∀ x, x ∈ dumpPerfFile (methodsAfter events) ↔
      ∃ l ∈ liveAfter events, l.line = x := by
  refine ⟨by decide, dumpPerfFile_lists_live _ ?_ ?_ _ (List.prefix_refl _)⟩
  · simp [Along, Allowed, liveStep]
  · simp [Along, Alone, liveStep]

theorem dumpPerfFile_loses_live :
    let a : Load ℕ := { method := 1, codeSize := 16, codeAddr := 0x1000, entry := "m" }
    let b : Load ℕ := { method := 1, codeSize := 32, codeAddr := 0x2000, entry := "m" }
    let events := [Event.load a, .load b, .unload 1 0x1000]
    Along Allowed [] events ∧ liveAfter events = [b] ∧ dumpPerfFile (methodsAfter events) = [] ∧
      liveAfter (events.take 2) = [b, a] ∧
      dumpPerfFile (methodsAfter (events.take 2)) = [b.line] := by
  refine ⟨?_, by decide, by decide, by decide, by decide⟩
  simp [Along, Allowed, liveStep]

end RPerf.Agent
