import RPerf.Packets.FirstPsb

/-!
# Overlapping trace data

`intel_pt_find_overlap` of `intel-pt-decoder.c`: where the data of the buffer `b` begins
that the buffer `a` does not have.
-/

namespace RPerf.Packets

open Lib

/-- `intel_pt_at_psb`. -/
def atPsb (buf : List UInt8) : Bool :=
  if buf.length < psbLen then false else (memmem psbStr (buf.take psbLen)).isSome

/-- `intel_pt_next_psb`: the buffer from its first PSB on. -/
def nextPsb (buf : List UInt8) : Option (List UInt8) := (memmem psbStr buf).map (buf.drop ·)

/-- `intel_pt_step_psb`. -/
def stepPsb : List UInt8 → Option (List UInt8)
  | [] => none
  | _ :: buf => nextPsb buf

/-- `memrchr`: the last place of a byte among the first `k`. -/
def memrchr (buf : List UInt8) (c : UInt8) : ℕ → Option ℕ
  | 0 => none
  | k + 1 => if buf[k]? = some c then some k else memrchr buf c k

section

variable (buf : List UInt8)

/-- One pass of the loop in `intel_pt_last_psb`, over the number of places to look at. -/
def lastPsbPass (k : ℕ) : Pass ℕ (Option ℕ) :=
  match memrchr buf 0x02 k with
  | none => .leave none
  | some p =>
    if (buf.drop (p + 1)).take (psbLen - 1) = psbStr.drop 1 then .leave (some p)
    else if p = 0 then .leave none
    else .again p

/-- `intel_pt_last_psb`. -/
def lastPsb : Option ℕ :=
  if buf.length < psbLen then none
  else loop (lastPsbPass buf) (fun _ => none) (buf.length + 1) (buf.length - psbLen + 1)

/-- One pass of the loop in `intel_pt_next_tsc`. -/
def nextTscPass : Pass (List UInt8) (Option UInt64) :=
  if buf = [] then .leave none
  else
    match getPacket (bytesOf buf) buf.length with
    | (.accept n, packet) =>
      if packet.type = .tsc then .leave (some packet.payload)
      else if packet.type = .psbend then .leave none
      else .again (buf.drop n)
    | _ => .leave none

/-- `intel_pt_next_tsc`. -/
def nextTsc : Option UInt64 :=
  loop nextTscPass (fun _ => none) (buf.length + 1) buf

end

/-- `intel_pt_tsc_cmp`. -/
def tscCmp (tsc₁ tsc₂ : UInt64) : Int :=
  let halfway : UInt64 := 0x80000000000000
  if tsc₁ = tsc₂ then 0
  else if tsc₁ < tsc₂ then if tsc₂ - tsc₁ < halfway then -1 else 1
  else if tsc₁ - tsc₂ < halfway then 1 else -1

def lastTsc (a : List UInt8) : Option UInt64 :=
  match lastPsb a with
  | none => none
  | some p =>
    match nextTsc (a.drop p) with
    | some tsc => some tsc
    | none =>
      match lastPsb (a.take p) with
      | none => none
      | some p' => nextTsc ((a.take p).drop p')

/-- One pass of the loop in `intel_pt_find_overlap_tsc`. -/
def overlapTscPass (tsc : UInt64) (b : List UInt8) : Pass (List UInt8) (List UInt8) :=
  let later := match nextTsc b with
    | some tsc' => decide (tscCmp tsc tsc' < 0)
    | none => false
  if later then .leave b
  else
    match stepPsb b with
    | none => .leave []
    | some b' => .again b'

/-- `intel_pt_find_overlap_tsc`: what is left of `b`. -/
def findOverlapTsc (a b : List UInt8) : List UInt8 :=
  match lastTsc a with
  | none => b
  | some tsc => loop (overlapTscPass tsc) (fun _ => []) (b.length + 1) b

def shortenPass (b a : List UInt8) : Pass (List UInt8) (Option (List UInt8)) :=
  if b.length < a.length then
    match stepPsb a with
    | none => .leave none
    | some a' => .again a'
  else .leave (some a)

def shorten (b a : List UInt8) : Option (List UInt8) :=
  loop (shortenPass b) (fun _ => none) (a.length + 1) a

def alignPass (b a : List UInt8) : Pass (List UInt8) (Option (List UInt8)) :=
  if atPsb (b.drop a.length) then .leave (some a)
  else
    match stepPsb a with
    | none => .leave none
    | some a' => .again a'

def align (b a : List UInt8) : Option (List UInt8) :=
  loop (alignPass b) (fun _ => none) (a.length + 1) a

def comparePass (b a : List UInt8) : Pass (List UInt8) ℕ :=
  if (memmem (b.take a.length) a).isSome then .leave a.length
  else
    match stepPsb a with
    | none => .leave 0
    | some a' =>
      match align b a' with
      | none => .leave 0
      | some a'' => .again a''

def compare (b a : List UInt8) : ℕ := loop (comparePass b) (fun _ => 0) (a.length + 1) a

def overlapLen (a b : List UInt8) : ℕ :=
  match shorten b a with
  | none => 0
  | some a =>
    if a.length < b.length then
      match align b a with
      | none => 0
      | some a => compare b a
    else compare b a

/-- `intel_pt_find_overlap`. -/
def findOverlap (a b : List UInt8) (haveTsc : Bool) : ℕ :=
  match nextPsb b with
  | none => b.length
  | some b' =>
    match nextPsb a with
    | none => b.length - b'.length
    | some a =>
      if haveTsc then b.length - (findOverlapTsc a b').length
      else b.length - b'.length + overlapLen a b'

inductive Compares (b : List UInt8) : List UInt8 → ℕ → Prop
  | found {a} : (memmem (b.take a.length) a).isSome → Compares b a a.length
  | last {a} : ¬ (memmem (b.take a.length) a).isSome → stepPsb a = none → Compares b a 0
  | unaligned {a next} : ¬ (memmem (b.take a.length) a).isSome → stepPsb a = some next →
    Leaves (alignPass b) next none → Compares b a 0
  | again {a next next' k} : ¬ (memmem (b.take a.length) a).isSome → stepPsb a = some next →
    Leaves (alignPass b) next (some next') → Compares b next' k → Compares b a k

/-- The same of the length of the overlap. -/
inductive OverlapLenReturns (a b : List UInt8) : ℕ → Prop
  | short : Leaves (shortenPass b) a none → OverlapLenReturns a b 0
  | unaligned {cur} : Leaves (shortenPass b) a (some cur) → cur.length < b.length →
    Leaves (alignPass b) cur none → OverlapLenReturns a b 0
  | aligned {cur next k} : Leaves (shortenPass b) a (some cur) → cur.length < b.length →
    Leaves (alignPass b) cur (some next) → Compares b next k → OverlapLenReturns a b k
  | equal {cur k} : Leaves (shortenPass b) a (some cur) → ¬ cur.length < b.length →
    Compares b cur k → OverlapLenReturns a b k

/-- What a call of `intel_pt_find_overlap` without TSC packets returns, with no bound on its loops.
-/
inductive FindOverlapReturns (a b : List UInt8) : ℕ → Prop
  | noPsb : nextPsb b = none → FindOverlapReturns a b b.length
  | noOverlap {b'} : nextPsb b = some b' → nextPsb a = none →
    FindOverlapReturns a b (b.length - b'.length)
  | search {a' b' k} : nextPsb b = some b' → nextPsb a = some a' → OverlapLenReturns a' b' k →
    FindOverlapReturns a b (b.length - b'.length + k)

variable {a b cur buf : List UInt8}

theorem atPsb_iff : atPsb buf = true ↔ psbStr <+: buf := by
  have hlen : psbStr.length = 16 := rfl
  unfold atPsb
  by_cases hshort : buf.length < psbLen
  · rw [if_pos hshort]
    refine ⟨fun h => absurd h (by decide), fun h => ?_⟩
    have := h.length_le
    simp only [psbLen] at hshort
    omega
  · rw [if_neg hshort, List.prefix_iff_eq_take]
    apply memmem_isSome_of_length_eq
    simp only [psbLen, List.length_take] at hshort ⊢
    omega

theorem nextPsb_none (h : nextPsb buf = none) (i : ℕ) : ¬ OccursAt psbStr buf i :=
  memmem_none (Option.map_eq_none_iff.mp h) i

theorem nextPsb_some {buf' : List UInt8} (h : nextPsb buf = some buf') :
    ∃ k, FirstAt psbStr buf k ∧ k ≤ buf.length ∧ buf' = buf.drop k := by
  obtain ⟨k, hk, rfl⟩ := Option.map_eq_some_iff.mp h
  obtain ⟨hfirst, hle⟩ := memmem_some hk
  exact ⟨k, hfirst, hle, rfl⟩

theorem stepPsb_none (h : stepPsb buf = none) {i : ℕ} (hi : i ≠ 0) : ¬ OccursAt psbStr buf i := by
  cases buf with
  | nil =>
    intro hocc
    have hlen : 16 ≤ 0 - i := hocc.le_length
    omega
  | cons x buf =>
    obtain ⟨i, rfl⟩ := Nat.exists_eq_succ_of_ne_zero hi
    exact nextPsb_none h i

theorem stepPsb_some {buf' : List UInt8} (h : stepPsb buf = some buf') :
    ∃ k, k ≠ 0 ∧ k ≤ buf.length ∧ buf' = buf.drop k ∧ OccursAt psbStr buf k ∧
      ∀ i, i ≠ 0 → i < k → ¬ OccursAt psbStr buf i := by
  cases buf with
  | nil => exact absurd h (by simp [stepPsb])
  | cons x buf =>
    obtain ⟨k, ⟨hocc, hfirst⟩, hle, rfl⟩ := nextPsb_some h
    refine ⟨k + 1, Nat.succ_ne_zero k, Nat.succ_le_succ hle, rfl, hocc, ?_⟩
    intro i hi hlt
    obtain ⟨i, rfl⟩ := Nat.exists_eq_succ_of_ne_zero hi
    exact hfirst i (Nat.lt_of_succ_lt_succ hlt)

theorem length_stepPsb {next : List UInt8} (h : stepPsb cur = some next) :
    next.length < cur.length := by
  obtain ⟨k, hk0, hk, rfl, -⟩ := stepPsb_some h
  rw [List.length_drop]
  omega

theorem shorten_leaves (b cur : List UInt8) : Leaves (shortenPass b) cur (shorten b cur) := by
  refine leaves_of_total (I := fun _ => True) (Q := fun _ => True) List.length ?_ _ _
    (Nat.lt_succ_self _) trivial
  intro cur _
  unfold shortenPass
  split_ifs
  · cases hs : stepPsb cur with
    | none => trivial
    | some next => exact ⟨trivial, length_stepPsb hs⟩
  · trivial

theorem alignPass_shorter (b : List UInt8) {cur start : List UInt8}
    (hle : cur.length ≤ start.length) :
    (alignPass b cur).Satisfies
      (fun next => next.length ≤ start.length ∧ next.length < cur.length)
      fun r => ∀ next ∈ r, next.length ≤ start.length := by
  unfold alignPass
  split_ifs
  · rintro next ⟨⟩
    exact hle
  · cases hs : stepPsb cur with
    | none => exact fun next hnext => absurd hnext (Option.not_mem_none next)
    | some next =>
      have hlt := length_stepPsb hs
      exact ⟨by omega, hlt⟩

theorem align_leaves (b cur : List UInt8) : Leaves (alignPass b) cur (align b cur) :=
  leaves_of_total (I := fun next => next.length ≤ cur.length) List.length
    (fun _ h => alignPass_shorter b h) _ _ (Nat.lt_succ_self _) le_rfl

theorem length_align (b cur : List UInt8) : ∀ next ∈ align b cur, next.length ≤ cur.length :=
  loop_total (I := fun next => next.length ≤ cur.length) List.length
    (fun _ h => alignPass_shorter b h) _ _ (Nat.lt_succ_self _) le_rfl

theorem compare_returns (b cur : List UInt8) : Compares b cur (compare b cur) := by
  refine loop_total (I := fun next => ∀ k, Compares b next k → Compares b cur k)
    (Q := Compares b cur) List.length ?_ _ _ (Nat.lt_succ_self _) fun k h => h
  intro next hnext
  unfold comparePass
  split_ifs with hfound
  · exact hnext _ (.found hfound)
  · cases hs : stepPsb next with
    | none => exact hnext _ (.last hfound hs)
    | some next' =>
      have hleaves := align_leaves b next'
      have hlen := length_align b next'
      dsimp only
      cases ha : align b next' with
      | none => exact hnext _ (.unaligned hfound hs (ha ▸ hleaves))
      | some next'' =>
        refine ⟨fun k hk => hnext k (.again hfound hs (ha ▸ hleaves) hk), ?_⟩
        exact (hlen next'' ha).trans_lt (length_stepPsb hs)

theorem overlapLen_returns (a b : List UInt8) : OverlapLenReturns a b (overlapLen a b) := by
  have hshort := shorten_leaves b a
  unfold overlapLen
  cases hs : shorten b a with
  | none => exact .short (hs ▸ hshort)
  | some cur =>
    rw [hs] at hshort
    have halign := align_leaves b cur
    dsimp only
    split_ifs with hlt
    · cases ha : align b cur with
      | none => exact .unaligned hshort hlt (ha ▸ halign)
      | some next => exact .aligned hshort hlt (ha ▸ halign) (compare_returns b next)
    · exact .equal hshort hlt (compare_returns b cur)

theorem findOverlap_returns (a b : List UInt8) :
    FindOverlapReturns a b (findOverlap a b false) := by
  unfold findOverlap
  cases hb : nextPsb b with
  | none => exact .noPsb hb
  | some b' =>
    cases ha : nextPsb a with
    | none => exact .noOverlap hb ha
    | some a' => exact .search hb ha (overlapLen_returns a' b')

/-- The last `k` bytes of `a` begin with a PSB and are the first of `b`. -/
structure Overlap (a b : List UInt8) (k : ℕ) : Prop where
  le_left : k ≤ a.length
  le_right : k ≤ b.length
  begins : psbStr <+: a.drop (a.length - k)
  same : a.drop (a.length - k) = b.take k
  leaves : k = b.length ∨ psbStr <+: b.drop k

/-- A rest of `a` that no overlap is longer than. -/
structure Candidate (a b cur : List UInt8) : Prop where
  suffix : cur <:+ a
  begins : psbStr <+: cur
  longest : ∀ k, Overlap a b k → k ≤ cur.length

theorem drop_eq_of_suffix (h : cur <:+ a) {k : ℕ} (hk : k ≤ cur.length) :
    a.drop (a.length - k) = cur.drop (cur.length - k) := by
  obtain ⟨t, rfl⟩ := h
  rw [List.length_append, Nat.add_sub_assoc hk, List.drop_length_add_append]

theorem Candidate.drop_length (h : Candidate a b cur) : a.drop (a.length - cur.length) = cur := by
  rw [drop_eq_of_suffix h.suffix le_rfl, Nat.sub_self, List.drop_zero]

theorem Candidate.step (h : Candidate a b cur) (hno : ¬ Overlap a b cur.length) :
    (stepPsb cur = none → ∀ k, ¬ Overlap a b k) ∧
      ∀ next, stepPsb cur = some next → Candidate a b next ∧ next.length < cur.length := by
  have hlater : ∀ k, Overlap a b k → cur.length - k ≠ 0 ∧
      OccursAt psbStr cur (cur.length - k) := by
    intro k hk
    have hle := h.longest k hk
    have hne : k ≠ cur.length := by
      rintro rfl
      exact hno hk
    refine ⟨by omega, ?_⟩
    rw [OccursAt, ← drop_eq_of_suffix h.suffix hle]
    exact hk.begins
  constructor
  · intro hnone k hk
    exact stepPsb_none hnone (hlater k hk).1 (hlater k hk).2
  · intro next hnext
    obtain ⟨m, hm0, hm, rfl, hocc, hfirst⟩ := stepPsb_some hnext
    have hlen := List.length_drop (i := m) (l := cur)
    refine ⟨⟨(List.drop_suffix m cur).trans h.suffix, hocc, ?_⟩, by omega⟩
    intro k hk
    obtain ⟨h0, hat⟩ := hlater k hk
    by_contra hlt
    exact hfirst _ h0 (by omega) hat

def Finds (a b : List UInt8) (P : List UInt8 → Prop) : Option (List UInt8) → Prop
  | none => ∀ k, ¬ Overlap a b k
  | some cur => Candidate a b cur ∧ P cur

theorem shorten_spec (h : Candidate a b cur) :
    Finds a b (fun cur => cur.length ≤ b.length) (shorten b cur) := by
  refine loop_total (I := Candidate a b) List.length ?_ _ _ (Nat.lt_succ_self _) h
  intro cur h
  unfold shortenPass
  by_cases hlong : b.length < cur.length
  · rw [if_pos hlong]
    have hstep := h.step fun ho => absurd ho.le_right (by omega)
    cases hs : stepPsb cur with
    | none => exact hstep.1 hs
    | some next => exact hstep.2 next hs
  · rw [if_neg hlong]
    exact ⟨h, by omega⟩

def Aligned (b cur : List UInt8) : Prop := cur.length < b.length ∧ psbStr <+: b.drop cur.length

theorem align_spec (h : Candidate a b cur) (hlt : cur.length < b.length) :
    Finds a b (fun next => Aligned b next ∧ next.length ≤ cur.length) (align b cur) := by
  refine loop_total (I := fun next => Candidate a b next ∧ next.length ≤ cur.length) List.length ?_
    _ _ (Nat.lt_succ_self _) ⟨h, le_rfl⟩
  rintro next ⟨hc, hle⟩
  unfold alignPass
  by_cases hat : atPsb (b.drop next.length) = true
  · rw [if_pos hat]
    exact ⟨hc, ⟨hle.trans_lt hlt, atPsb_iff.mp hat⟩, hle⟩
  · rw [if_neg hat]
    rw [atPsb_iff] at hat
    have hstep := hc.step fun ho => ho.leaves.elim (by omega) hat
    cases hs : stepPsb next with
    | none => exact hstep.1 hs
    | some next' =>
      obtain ⟨hc', hlt'⟩ := hstep.2 next' hs
      exact ⟨⟨hc', by omega⟩, hlt'⟩

def Longest (a b : List UInt8) (k : ℕ) : Prop :=
  IsGreatest {k | Overlap a b k} k ∨ k = 0 ∧ ∀ k, ¬ Overlap a b k

theorem compare_spec (h : Candidate a b cur) (hfit : cur.length = b.length ∨ Aligned b cur) :
    Longest a b (compare b cur) := by
  refine loop_total (I := fun cur => Candidate a b cur ∧ (cur.length = b.length ∨ Aligned b cur))
    List.length ?_ _ _ (Nat.lt_succ_self _) ⟨h, hfit⟩
  rintro cur ⟨hc, hfit⟩
  have hle : cur.length ≤ b.length := hfit.elim le_of_eq fun ha => ha.1.le
  have hsame : (memmem (b.take cur.length) cur).isSome = true ↔ b.take cur.length = cur :=
    memmem_isSome_of_length_eq (by rw [List.length_take]; omega)
  unfold comparePass
  by_cases heq : b.take cur.length = cur
  · rw [if_pos (hsame.mpr heq)]
    refine .inl ⟨⟨hc.suffix.length_le, hle, ?_, ?_, hfit.imp_right And.right⟩, hc.longest⟩
    · rw [hc.drop_length]
      exact hc.begins
    · rw [hc.drop_length, heq]
  · rw [if_neg (hsame.not.mpr heq)]
    have hstep := hc.step fun ho => heq (ho.same.symm.trans hc.drop_length)
    cases hs : stepPsb cur with
    | none => exact .inr ⟨rfl, hstep.1 hs⟩
    | some next =>
      obtain ⟨hc', hlt⟩ := hstep.2 next hs
      have halign := align_spec hc' (hlt.trans_le hle)
      simp only
      cases ha : align b next with
      | none =>
        rw [ha] at halign
        exact .inr ⟨rfl, halign⟩
      | some next' =>
        rw [ha] at halign
        obtain ⟨hc'', haligned, hle'⟩ := halign
        exact ⟨⟨hc'', .inr haligned⟩, hle'.trans_lt hlt⟩

theorem overlapLen_spec (h : Candidate a b cur) : Longest a b (overlapLen cur b) := by
  have hshort := shorten_spec h
  unfold overlapLen
  cases hs : shorten b cur with
  | none =>
    rw [hs] at hshort
    exact .inr ⟨rfl, hshort⟩
  | some next =>
    rw [hs] at hshort
    obtain ⟨hc, hle⟩ := hshort
    simp only
    by_cases hlt : next.length < b.length
    · rw [if_pos hlt]
      have halign := align_spec hc hlt
      cases ha : align b next with
      | none =>
        rw [ha] at halign
        exact .inr ⟨rfl, halign⟩
      | some next' =>
        rw [ha] at halign
        exact compare_spec halign.1 (.inr halign.2.1)
    · rw [if_neg hlt]
      exact compare_spec hc (.inl (by omega))

theorem candidate_of_nextPsb (h : nextPsb a = some cur) : Candidate a b cur := by
  obtain ⟨m, ⟨hocc, hfirst⟩, hle, rfl⟩ := nextPsb_some h
  refine ⟨List.drop_suffix m a, hocc, fun k hk => ?_⟩
  rw [List.length_drop]
  by_contra hlt
  exact hfirst _ (by have := hk.le_left; omega) hk.begins

theorem findOverlapTsc_spec (a : List UInt8) (hb : psbStr <+: b) :
    findOverlapTsc a b <:+ b ∧ (findOverlapTsc a b = [] ∨ psbStr <+: findOverlapTsc a b) := by
  unfold findOverlapTsc
  cases lastTsc a with
  | none => exact ⟨List.suffix_refl b, .inr hb⟩
  | some tsc =>
    refine loop_total (I := fun cur => cur <:+ b ∧ psbStr <+: cur)
      (Q := fun rest => rest <:+ b ∧ (rest = [] ∨ psbStr <+: rest)) List.length ?_ _ _
      (Nat.lt_succ_self _) ⟨List.suffix_refl b, hb⟩
    rintro cur ⟨hsuf, hpsb⟩
    unfold overlapTscPass
    simp only
    generalize (match nextTsc cur with
      | some tsc' => decide (tscCmp tsc tsc' < 0)
      | none => false) = later
    cases later with
    | true => exact ⟨hsuf, .inr hpsb⟩
    | false =>
      simp only [Bool.false_eq_true, if_false]
      cases hs : stepPsb cur with
      | none => exact ⟨List.nil_suffix, .inl rfl⟩
      | some next =>
        obtain ⟨m, hm0, hm, rfl, hocc, -⟩ := stepPsb_some hs
        refine ⟨⟨(List.drop_suffix m cur).trans hsuf, hocc⟩, ?_⟩
        rw [List.length_drop]
        omega

theorem findOverlap_lands (a b : List UInt8) (haveTsc : Bool) :
    findOverlap a b haveTsc ≤ b.length ∧
      (b.drop (findOverlap a b haveTsc) = [] ∨ psbStr <+: b.drop (findOverlap a b haveTsc)) := by
  unfold findOverlap
  cases hb : nextPsb b with
  | none => exact ⟨le_rfl, .inl (List.drop_length)⟩
  | some b' =>
    obtain ⟨o, ⟨hocc, -⟩, ho, rfl⟩ := nextPsb_some hb
    have hoff : b.length - (b.drop o).length = o := by
      rw [List.length_drop]
      omega
    simp only [hoff]
    cases ha : nextPsb a with
    | none => exact ⟨ho, .inr hocc⟩
    | some a' =>
      simp only
      by_cases htsc : haveTsc = true
      · rw [if_pos htsc]
        obtain ⟨hsuf, hends⟩ := findOverlapTsc_spec a' hocc
        have hsuf' := hsuf.trans (List.drop_suffix o b)
        rw [drop_eq_of_suffix hsuf' le_rfl, Nat.sub_self, List.drop_zero]
        exact ⟨Nat.sub_le _ _, hends⟩
      · rw [if_neg htsc, ← List.drop_drop]
        rcases overlapLen_spec (b := b.drop o) (candidate_of_nextPsb ha) with
          ⟨hk, -⟩ | ⟨h0, -⟩
        · have hle := hk.le_right
          rw [List.length_drop] at hle
          refine ⟨by omega, hk.leaves.imp_left fun heq => ?_⟩
          rw [heq, List.drop_length]
        · rw [h0]
          exact ⟨ho, .inr hocc⟩

/-- Without TSC packets `intel_pt_find_overlap` returns, and the new data of `b` begins behind its
longest overlap with `a`. -/
theorem find_overlap_longest (a b : List UInt8) :
    FindOverlapReturns a b (findOverlap a b false) ∧
      ((∀ i, ¬ OccursAt psbStr b i) → findOverlap a b false = b.length) ∧
      (∀ o, FirstAt psbStr b o →
        (∀ k, IsGreatest {k | Overlap a (b.drop o) k} k → findOverlap a b false = o + k) ∧
        ((∀ k, ¬ Overlap a (b.drop o) k) → findOverlap a b false = o)) ∧
      findOverlap a b false ≤ b.length ∧
      (b.drop (findOverlap a b false) = [] ∨ psbStr <+: b.drop (findOverlap a b false)) := by
  refine ⟨findOverlap_returns a b, ?_, ?_, findOverlap_lands a b false⟩
  · intro hnone
    unfold findOverlap
    cases hb : nextPsb b with
    | none => rfl
    | some b' =>
      obtain ⟨o, ⟨hocc, -⟩, -⟩ := nextPsb_some hb
      exact absurd hocc (hnone o)
  · intro o hfirst
    have hspec : ∃ k, Longest a (b.drop o) k ∧ findOverlap a b false = o + k := by
      unfold findOverlap
      cases hb : nextPsb b with
      | none => exact absurd hfirst.1 (nextPsb_none hb o)
      | some b' =>
        obtain ⟨o', hfirst', ho, rfl⟩ := nextPsb_some hb
        obtain rfl := hfirst.unique hfirst'
        have hoff : b.length - (b.drop o).length = o := by
          rw [List.length_drop]
          omega
        simp only [hoff]
        cases ha : nextPsb a with
        | none => exact ⟨0, .inr ⟨rfl, fun k hk => nextPsb_none ha _ hk.begins⟩, rfl⟩
        | some a' => exact ⟨_, overlapLen_spec (candidate_of_nextPsb ha), rfl⟩
    obtain ⟨k, hk, heq⟩ := hspec
    constructor
    · intro k' hk'
      rcases hk with hk | ⟨-, hno⟩
      · rw [heq, hk.unique hk']
      · exact absurd hk'.1 (hno k')
    · intro hno
      rcases hk with hk | ⟨rfl, -⟩
      · exact absurd hk.1 (hno k)
      · exact heq

example : findOverlap (psbStr ++ [7] ++ psbStr ++ [1]) (psbStr ++ [1] ++ psbStr) false = 17 := by
  decide +kernel

end RPerf.Packets
