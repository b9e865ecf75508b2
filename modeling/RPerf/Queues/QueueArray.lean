import Mathlib.Logic.Function.Basic
import Mathlib.Tactic

/-!
# The array of queues

`struct auxtrace_queues` of `auxtrace.c` with `auxtrace_queues__grow` and
`auxtrace_queues__add_buffer`, and `intel_pt_cpu_to_ptq` of `intel-pt.c`.
-/

namespace RPerf.Queues

open Function

/-- `struct auxtrace_buffer`. -/
structure AuxtraceBuffer (δ : Type) where
  data : δ
  tid : Int := -1
  cpu : Int := -1
  bufferNr : UInt64 := 0
  deriving DecidableEq, Repr

/-- `struct auxtrace_queue`. -/
structure AuxtraceQueue (δ P : Type) where
  head : List (AuxtraceBuffer δ) := []
  tid : Int := 0
  cpu : Int := 0
  set : Bool := false
  priv : Option P := none

/-- `struct auxtrace_queues`. -/
structure AuxtraceQueues (δ P : Type) where
  queueArray : ℕ → AuxtraceQueue δ P := fun _ => {}
  nrQueues : UInt32 := 32
  newData : Bool := false
  populated : Bool := false
  nextBufferNr : UInt64 := 0

def maxNrQueues : UInt32 := 107374182

def doubling (newNr : UInt32) : ℕ → UInt32 → UInt32
  | 0, nr => nr
  | fuel + 1, nr => if nr ≠ 0 ∧ nr < newNr then doubling newNr fuel (nr <<< 1) else nr

namespace AuxtraceQueues

variable {δ P : Type}

/-- `auxtrace_queues__init`. -/
def init : AuxtraceQueues δ P := {}

section

variable (q : AuxtraceQueues δ P)

def copied (nr : UInt32) : AuxtraceQueues δ P :=
  { q with
    nrQueues := nr
    queueArray := fun i =>
      if i < q.nrQueues.toNat then
        { head := (q.queueArray i).head, priv := (q.queueArray i).priv }
      else {} }

/-- `auxtrace_queues__grow`. -/
def grow (newNr : UInt32) : Int × AuxtraceQueues δ P :=
  let nr := doubling newNr 32 (if q.nrQueues = 0 then 32 else q.nrQueues)
  if nr < q.nrQueues ∨ nr < newNr then (-22, q)
  else if maxNrQueues < nr then (-12, q)
  else (0, q.copied nr)

def accept (idx : ℕ) (queue : AuxtraceQueue δ P) (buffer : AuxtraceBuffer δ) : AuxtraceQueues δ P :=
  { q with
    queueArray := update q.queueArray idx
      { queue with head := queue.head ++ [{ buffer with bufferNr := q.nextBufferNr }] }
    nextBufferNr := q.nextBufferNr + 1
    newData := true
    populated := true }

/-- `auxtrace_queues__add_buffer`. -/
def addBuffer (idx : UInt32) (buffer : AuxtraceBuffer δ) : Option (Int × AuxtraceQueues δ P) :=
  let (err, q) := if q.nrQueues ≤ idx then q.grow (idx + 1) else (0, q)
  if err ≠ 0 then some (err, q)
  else if q.nrQueues ≤ idx then none
  else
    let queue := q.queueArray idx.toNat
    if queue.set = false then
      some (0, q.accept idx.toNat
        { queue with set := true, tid := buffer.tid, cpu := buffer.cpu } buffer)
    else if buffer.cpu ≠ queue.cpu ∨ buffer.tid ≠ queue.tid then some (-22, q)
    else some (0, q.accept idx.toNat queue buffer)

/-- The private data of a queue are stored. -/
def attach (i : ℕ) (priv : P) : AuxtraceQueues δ P :=
  { q with queueArray := update q.queueArray i { q.queueArray i with priv := some priv } }

def lookDown (q : AuxtraceQueues δ P) (cpu : Int) : ℕ → Option ℕ
  | 0 => none
  | i + 1 => if (q.queueArray i).cpu = cpu then some i else q.lookDown cpu i

def lookUp (q : AuxtraceQueues δ P) (cpu : Int) : ℕ → ℕ → Option ℕ
  | 0, _ => none
  | n + 1, j => if (q.queueArray j).cpu = cpu then some j else q.lookUp cpu n (j + 1)

/-- The queue that `intel_pt_cpu_to_ptq` finds. -/
def cpuToQueue (cpu : Int) : Option ℕ :=
  let nr := q.nrQueues.toNat
  if cpu < 0 ∨ nr = 0 then none
  else
    let i := if nr ≤ cpu.toNat then nr - 1 else cpu.toNat
    if (q.queueArray i).cpu = cpu then some i
    else (q.lookDown cpu i).or (q.lookUp cpu (nr - i) i)

/-- `intel_pt_cpu_to_ptq`. -/
def cpuToPtq (cpu : Int) : Option P :=
  (q.cpuToQueue cpu).bind fun i => (q.queueArray i).priv

end

inductive Run (ok : AuxtraceQueues δ P → UInt32 → Prop) :
    (ℕ → List (AuxtraceBuffer δ)) → (ℕ → Option P) → AuxtraceQueues δ P → Prop
  | init : Run ok (fun _ => []) (fun _ => none) init
  | attach {arrived privs q i} (h : Run ok arrived privs q) (hi : i < q.nrQueues.toNat) (priv : P) :
    Run ok arrived (update privs i (some priv)) (q.attach i priv)
  | accepted {arrived privs q idx buffer q'} (h : Run ok arrived privs q) (hok : ok q idx)
    (hadd : q.addBuffer idx buffer = some (0, q')) :
    Run ok (update arrived idx.toNat
      (arrived idx.toNat ++ [{ buffer with bufferNr := q.nextBufferNr }])) privs q'
  | refused {arrived privs q idx buffer e q'} (h : Run ok arrived privs q) (hok : ok q idx)
    (hadd : q.addBuffer idx buffer = some (e, q')) (he : e ≠ 0) : Run ok arrived privs q'

/-- Each queue has its buffers in the order of their arrival, and its private data. -/
structure Keeps (arrived : ℕ → List (AuxtraceBuffer δ)) (privs : ℕ → Option P)
    (q : AuxtraceQueues δ P) : Prop where
  head : ∀ i < q.nrQueues.toNat, (q.queueArray i).head = arrived i
  priv : ∀ i < q.nrQueues.toNat, (q.queueArray i).priv = privs i
  beyond : ∀ i, q.nrQueues.toNat ≤ i → arrived i = [] ∧ privs i = none

def Owned (first : Option (AuxtraceBuffer δ)) (queue : AuxtraceQueue δ P) : Prop :=
  match first with
  | none => queue.set = false ∧ queue.cpu = 0
  | some first => queue.set = true ∧ queue.tid = first.tid ∧ queue.cpu = first.cpu

def Belongs (arrived : ℕ → List (AuxtraceBuffer δ)) (q : AuxtraceQueues δ P) : Prop :=
  ∀ i < q.nrQueues.toNat, Owned (arrived i).head? (q.queueArray i)

section

variable (q : AuxtraceQueues δ P)

/-- A call that does not make the array grow, unless no queue belongs to anyone. -/
def NoLoss (idx : UInt32) : Prop :=
  idx < q.nrQueues ∨ ∀ i < q.nrQueues.toNat, (q.queueArray i).set = false

theorem doubling_done (newNr nr : UInt32) :
    doubling newNr 32 nr = 0 ∨ newNr ≤ doubling newNr 32 nr := by
  have hstop (fuel : ℕ) (nr : UInt32) : doubling newNr fuel nr = 0 ∨
      newNr ≤ doubling newNr fuel nr ∨
      (doubling newNr fuel nr).toNat = nr.toNat * 2 ^ fuel % 2 ^ 32 := by
    induction fuel generalizing nr with
    | zero =>
      rw [doubling, Nat.pow_zero, Nat.mul_one, Nat.mod_eq_of_lt nr.toNat_lt]
      exact .inr (.inr rfl)
    | succ fuel ih =>
      rw [doubling]
      split_ifs with h
      · rcases ih (nr <<< 1) with hz | hle | heq
        · exact .inl hz
        · exact .inr (.inl hle)
        · have hshift : (nr <<< 1).toNat = nr.toNat * 2 % 2 ^ 32 := by
            rw [UInt32.toNat_shiftLeft, Nat.shiftLeft_eq]
            rfl
          rw [heq, hshift, Nat.mod_mul_mod, Nat.mul_assoc, ← Nat.pow_succ']
          exact .inr (.inr rfl)
      · by_cases h0 : nr = 0
        · exact .inl h0
        · exact .inr (.inl (UInt32.not_lt.mp fun hlt => h ⟨h0, hlt⟩))
  rcases hstop 32 nr with hz | hle | heq
  · exact .inl hz
  · exact .inr hle
  · rw [Nat.mul_mod_left] at heq
    exact .inl (UInt32.toNat_inj.mp heq)

inductive Grown (q : AuxtraceQueues δ P) : AuxtraceQueues δ P → Prop
  | same : Grown q q
  | more {nr : UInt32} (h : q.nrQueues ≤ nr) : Grown q (q.copied nr)

inductive Takes (queue : AuxtraceQueue δ P) (buffer : AuxtraceBuffer δ) :
    AuxtraceQueue δ P → Prop
  | first (h : queue.set = false) :
    Takes queue buffer { queue with set := true, tid := buffer.tid, cpu := buffer.cpu }
  | same (h : queue.set = true) (hcpu : buffer.cpu = queue.cpu) (htid : buffer.tid = queue.tid) :
    Takes queue buffer queue

theorem grow_cases (newNr : UInt32) :
    (q.grow newNr).1 ≠ 0 ∧ (q.grow newNr).2 = q ∨
      (q.grow newNr).1 = 0 ∧
        ∃ nr, q.nrQueues ≤ nr ∧ newNr ≤ nr ∧ (q.grow newNr).2 = q.copied nr := by
  simp only [grow]
  generalize doubling newNr 32 (if q.nrQueues = 0 then 32 else q.nrQueues) = nr
  split_ifs with hsmall hmax
  · exact .inl ⟨by simp, rfl⟩
  · exact .inl ⟨by simp, rfl⟩
  · rw [not_or, UInt32.not_lt, UInt32.not_lt] at hsmall
    exact .inr ⟨rfl, nr, hsmall.1, hsmall.2, rfl⟩

theorem grow_grown (newNr : UInt32) : Grown q (q.grow newNr).2 := by
  rcases q.grow_cases newNr with ⟨-, heq⟩ | ⟨-, nr, hle, -, heq⟩
  · rw [heq]
    exact .same
  · rw [heq]
    exact .more hle

theorem addBuffer_some {q q' : AuxtraceQueues δ P} {idx : UInt32} {buffer : AuxtraceBuffer δ}
    {e : Int} (h : q.addBuffer idx buffer = some (e, q')) :
    ∃ q₁, Grown q q₁ ∧ (idx < q.nrQueues → q₁ = q) ∧
      (e ≠ 0 ∧ q' = q₁ ∨ e = 0 ∧ idx < q₁.nrQueues ∧
        ∃ queue, Takes (q₁.queueArray idx.toNat) buffer queue ∧
          q' = q₁.accept idx.toNat queue buffer) := by
  obtain ⟨⟨err, q₁⟩, hgrow⟩ :
      ∃ r, r = if q.nrQueues ≤ idx then q.grow (idx + 1) else (0, q) := ⟨_, rfl⟩
  have hgrown : Grown q q₁ ∧ (idx < q.nrQueues → q₁ = q) := by
    split_ifs at hgrow with hidx
    · have hq₁ := grow_grown q (idx + 1)
      rw [← hgrow] at hq₁
      exact ⟨hq₁, fun hlt => absurd hidx (UInt32.not_le.mpr hlt)⟩
    · obtain rfl := (Prod.mk.inj hgrow).2
      exact ⟨.same, fun _ => rfl⟩
  refine ⟨q₁, hgrown.1, hgrown.2, ?_⟩
  simp only [addBuffer, ← hgrow] at h
  split_ifs at h with herr hroom hset hconflict
  · obtain ⟨rfl, rfl⟩ := Prod.mk.inj (Option.some.inj h)
    exact .inl ⟨herr, rfl⟩
  · obtain ⟨rfl, rfl⟩ := Prod.mk.inj (Option.some.inj h)
    exact .inr ⟨rfl, UInt32.not_le.mp hroom, _, .first hset, rfl⟩
  · obtain ⟨rfl, rfl⟩ := Prod.mk.inj (Option.some.inj h)
    exact .inl ⟨by decide, rfl⟩
  · obtain ⟨rfl, rfl⟩ := Prod.mk.inj (Option.some.inj h)
    rw [not_or, not_not, not_not] at hconflict
    exact .inr ⟨rfl, UInt32.not_le.mp hroom, _,
      .same (Bool.not_eq_false _ ▸ hset) hconflict.1 hconflict.2, rfl⟩

theorem addBuffer_isSome {idx : UInt32} (hidx : idx ≠ 0xffffffff) (buffer : AuxtraceBuffer δ) :
    (q.addBuffer idx buffer).isSome := by
  have hnext : (idx + 1).toNat = idx.toNat + 1 := by
    have hne : idx.toNat ≠ 0xffffffff := fun h => hidx (UInt32.toNat_inj.mp h)
    have hlt := idx.toNat_lt
    rw [UInt32.toNat_add]
    change (idx.toNat + 1) % 2 ^ 32 = _
    omega
  have hroom (r : Int × AuxtraceQueues δ P)
      (hr : r = if q.nrQueues ≤ idx then q.grow (idx + 1) else (0, q)) (herr : r.1 = 0) :
      ¬ r.2.nrQueues ≤ idx := by
    split_ifs at hr with hgrow
    · rw [hr] at herr ⊢
      rcases q.grow_cases (idx + 1) with ⟨hne, -⟩ | ⟨-, nr, -, hnr, heq⟩
      · exact absurd herr hne
      · rw [UInt32.le_iff_toNat_le, hnext] at hnr
        rw [heq, UInt32.le_iff_toNat_le]
        exact Nat.not_le.mpr hnr
    · rw [hr]
      exact hgrow
  simp only [addBuffer]
  generalize (if q.nrQueues ≤ idx then q.grow (idx + 1) else (0, q)) = r at hroom ⊢
  split_ifs with herr hout
  · rfl
  · exact absurd hout (hroom r rfl (not_not.mp herr))
  all_goals rfl

end

section

variable {ok : AuxtraceQueues δ P → UInt32 → Prop} {arrived : ℕ → List (AuxtraceBuffer δ)}
  {privs : ℕ → Option P} {q q₁ : AuxtraceQueues δ P}

theorem Grown.nextBufferNr (h : Grown q q₁) : q₁.nextBufferNr = q.nextBufferNr := by
  cases h <;> rfl

theorem Keeps.grown (h : Keeps arrived privs q) (hq : Grown q q₁) : Keeps arrived privs q₁ := by
  cases hq with
  | same => exact h
  | @more nr hle =>
    rw [UInt32.le_iff_toNat_le] at hle
    constructor
    case head =>
      intro i _
      by_cases hi : i < q.nrQueues.toNat
      · simp only [copied, if_pos hi]
        exact h.head i hi
      · simp only [copied, if_neg hi]
        exact (h.beyond i (Nat.le_of_not_lt hi)).1.symm
    case priv =>
      intro i _
      by_cases hi : i < q.nrQueues.toNat
      · simp only [copied, if_pos hi]
        exact h.priv i hi
      · simp only [copied, if_neg hi]
        exact (h.beyond i (Nat.le_of_not_lt hi)).2.symm
    case beyond => exact fun i hi => h.beyond i (hle.trans hi)

variable {queue : AuxtraceQueue δ P} {buffer : AuxtraceBuffer δ}

theorem Takes.kept {queue' : AuxtraceQueue δ P} (h : Takes queue buffer queue') :
    queue'.head = queue.head ∧ queue'.priv = queue.priv := by
  cases h <;> exact ⟨rfl, rfl⟩

theorem Keeps.replace (h : Keeps arrived privs q) {idx : ℕ} (hidx : idx < q.nrQueues.toNat)
    (harray : q₁.queueArray = update q.queueArray idx queue) (hnr : q₁.nrQueues = q.nrQueues) :
    Keeps (update arrived idx queue.head) (update privs idx queue.priv) q₁ := by
  have hfield {γ : Type _} (f : AuxtraceQueue δ P → γ) {g : ℕ → γ}
      (hg : ∀ i < q.nrQueues.toNat, f (q.queueArray i) = g i) :
      ∀ i < q₁.nrQueues.toNat, f (q₁.queueArray i) = update g idx (f queue) i := by
    intro i hi
    rw [hnr] at hi
    rw [harray]
    by_cases hne : i = idx
    · rw [hne, update_self, update_self]
    · rw [update_of_ne hne, update_of_ne hne, hg i hi]
  refine ⟨hfield AuxtraceQueue.head h.head, hfield AuxtraceQueue.priv h.priv, fun i hi => ?_⟩
  rw [hnr] at hi
  have hne : i ≠ idx := Nat.ne_of_gt (Nat.lt_of_lt_of_le hidx hi)
  rw [update_of_ne hne, update_of_ne hne]
  exact h.beyond i hi

theorem Keeps.accept (h : Keeps arrived privs q) {idx : ℕ} (hidx : idx < q.nrQueues.toNat)
    (ht : Takes (q.queueArray idx) buffer queue) :
    Keeps (update arrived idx (arrived idx ++ [{ buffer with bufferNr := q.nextBufferNr }])) privs
      (q.accept idx queue buffer) := by
  obtain ⟨hhead, hpriv⟩ := ht.kept
  rw [h.head idx hidx] at hhead
  rw [h.priv idx hidx] at hpriv
  have hkeeps : Keeps _ _ (q.accept idx queue buffer) := h.replace hidx rfl rfl
  simp only [hhead, hpriv, update_eq_self] at hkeeps
  exact hkeeps

theorem Run.keeps (h : Run ok arrived privs q) : Keeps arrived privs q := by
  induction h with
  | init => exact ⟨fun _ _ => rfl, fun _ _ => rfl, fun _ _ => ⟨rfl, rfl⟩⟩
  | @attach arrived privs q i h hi priv ih =>
    have hkeeps : Keeps _ _ (q.attach i priv) := ih.replace hi rfl rfl
    simp only [ih.head i hi, update_eq_self] at hkeeps
    exact hkeeps
  | accepted _ _ hadd ih =>
    obtain ⟨q₁, hgrown, -, ⟨he, -⟩ | ⟨-, hidx, queue, htakes, rfl⟩⟩ := addBuffer_some hadd
    · exact absurd rfl he
    · rw [← hgrown.nextBufferNr]
      exact (ih.grown hgrown).accept (UInt32.lt_iff_toNat_lt.mp hidx) htakes
  | refused _ _ hadd he ih =>
    obtain ⟨q₁, hgrown, -, ⟨-, rfl⟩ | ⟨he', -⟩⟩ := addBuffer_some hadd
    · exact ih.grown hgrown
    · exact absurd he' he

theorem Owned.set_eq {first : Option (AuxtraceBuffer δ)} (h : Owned first queue) :
    queue.set = first.isSome := by
  cases first with
  | none => exact h.1
  | some first => exact h.1

theorem Owned.takes {l : List (AuxtraceBuffer δ)} {queue' : AuxtraceQueue δ P}
    (h : Owned l.head? queue) (ht : Takes queue buffer queue') {n : UInt64}
    {head : List (AuxtraceBuffer δ)} :
    Owned (l ++ [{ buffer with bufferNr := n }]).head? { queue' with head := head } := by
  have hset := h.set_eq
  cases l with
  | nil =>
    cases ht with
    | first => exact ⟨rfl, rfl, rfl⟩
    | same hs => rw [hs] at hset; cases hset
  | cons a l =>
    cases ht with
    | first hs => rw [hs] at hset; cases hset
    | same hs _ _ => exact h

theorem Belongs.grown (h : Belongs arrived q) (hk : Keeps arrived privs q) {idx : UInt32}
    (hno : NoLoss q idx) (hq : Grown q q₁) (hsame : idx < q.nrQueues → q₁ = q) :
    Belongs arrived q₁ := by
  rcases hno with hlt | hunset
  · rw [hsame hlt]
    exact h
  · cases hq with
    | same => exact h
    | more =>
      intro i _
      have hnone : (arrived i).head? = none := by
        by_cases hi : i < q.nrQueues.toNat
        · have hset := (h i hi).set_eq
          rw [hunset i hi] at hset
          simpa using hset.symm
        · rw [(hk.beyond i (Nat.le_of_not_lt hi)).1]
          rfl
      rw [hnone]
      simp only [copied]
      split_ifs <;> exact ⟨rfl, rfl⟩

theorem Run.belongs (h : Run NoLoss arrived privs q) : Belongs arrived q := by
  induction h with
  | init => exact fun _ _ => ⟨rfl, rfl⟩
  | @attach arrived privs q i _ _ priv ih =>
    intro j hj
    by_cases hne : j = i
    · subst hne
      simp only [AuxtraceQueues.attach, update_self]
      exact ih j hj
    · simp only [AuxtraceQueues.attach, update_of_ne hne]
      exact ih j hj
  | @accepted arrived privs q idx buffer q' h hno hadd ih =>
    obtain ⟨q₁, hgrown, hsame, ⟨he, -⟩ | ⟨-, -, queue, htakes, rfl⟩⟩ := addBuffer_some hadd
    · exact absurd rfl he
    · have hbelongs := ih.grown h.keeps hno hgrown hsame
      intro i hi
      by_cases hne : i = idx.toNat
      · subst hne
        simp only [accept, update_self]
        exact (hbelongs _ hi).takes htakes
      · simp only [accept, update_of_ne hne]
        exact hbelongs i hi
  | refused h hno hadd he ih =>
    obtain ⟨q₁, hgrown, hsame, ⟨-, rfl⟩ | ⟨he', -⟩⟩ := addBuffer_some hadd
    · exact ih.grown h.keeps hno hgrown hsame
    · exact absurd he' he

theorem Belongs.addBuffer_conflict (h : Belongs arrived q) (hk : Keeps arrived privs q)
    {idx : UInt32} {first : AuxtraceBuffer δ} (hfirst : (arrived idx.toNat).head? = some first)
    (hne : buffer.cpu ≠ first.cpu ∨ buffer.tid ≠ first.tid) :
    q.addBuffer idx buffer = some (-22, q) := by
  have hidx : idx.toNat < q.nrQueues.toNat := by
    by_contra hout
    rw [(hk.beyond _ (Nat.le_of_not_lt hout)).1] at hfirst
    cases hfirst
  have hlt : ¬ q.nrQueues ≤ idx := by
    rw [UInt32.le_iff_toNat_le]
    exact Nat.not_le.mpr hidx
  have howned := h idx.toNat hidx
  rw [hfirst] at howned
  obtain ⟨hset, htid, hcpu⟩ := howned
  rw [← hcpu, ← htid] at hne
  simp only [addBuffer, if_neg hlt, ne_eq, not_true_eq_false, if_false, hset, Bool.true_eq_false]
  exact if_pos hne

end

section

variable {q : AuxtraceQueues δ P} {cpu : Int} {k : ℕ}

theorem lookDown_eq_none {i : ℕ} (h : ∀ j < i, (q.queueArray j).cpu ≠ cpu) :
    q.lookDown cpu i = none := by
  induction i with
  | zero => rfl
  | succ i ih =>
    rw [lookDown, if_neg (h i (Nat.lt_succ_self i))]
    exact ih fun j hj => h j (Nat.lt_succ_of_lt hj)

theorem lookDown_eq_some (hk : (q.queueArray k).cpu = cpu) {i : ℕ} (hki : k < i)
    (h : ∀ j, k < j → j < i → (q.queueArray j).cpu ≠ cpu) : q.lookDown cpu i = some k := by
  induction i with
  | zero => exact absurd hki (Nat.not_lt_zero k)
  | succ i ih =>
    rw [lookDown]
    by_cases heq : i = k
    · rw [heq, if_pos hk]
    · have hlt : k < i := Nat.lt_of_le_of_ne (Nat.le_of_lt_succ hki) fun he => heq he.symm
      rw [if_neg (h i hlt (Nat.lt_succ_self i))]
      exact ih hlt fun j hj hji => h j hj (Nat.lt_succ_of_lt hji)

theorem lookUp_eq_some (hk : (q.queueArray k).cpu = cpu) {n j : ℕ} (hjk : j ≤ k) (hkn : k < j + n)
    (h : ∀ m, j ≤ m → m < k → (q.queueArray m).cpu ≠ cpu) : q.lookUp cpu n j = some k := by
  induction n generalizing j with
  | zero => exact absurd hkn (Nat.not_lt.mpr hjk)
  | succ n ih =>
    rw [lookUp]
    by_cases heq : j = k
    · rw [heq, if_pos hk]
    · have hlt : j < k := Nat.lt_of_le_of_ne hjk heq
      rw [if_neg (h j le_rfl hlt)]
      exact ih hlt (by omega) fun m hm hmk => h m (Nat.le_of_succ_le hm) hmk

theorem cpuToQueue_congr {q' : AuxtraceQueues δ P} (hnr : q'.nrQueues = q.nrQueues)
    (hcpus : ∀ j, (q'.queueArray j).cpu = (q.queueArray j).cpu) :
    q'.cpuToQueue cpu = q.cpuToQueue cpu := by
  have hdown (i : ℕ) : q'.lookDown cpu i = q.lookDown cpu i := by
    induction i with
    | zero => rfl
    | succ i ih => rw [lookDown, lookDown, hcpus, ih]
  have hup (n j : ℕ) : q'.lookUp cpu n j = q.lookUp cpu n j := by
    induction n generalizing j with
    | zero => rfl
    | succ n ih => rw [lookUp, lookUp, hcpus, ih]
  simp only [cpuToQueue, hnr, hcpus, hdown, hup]

/-- The one queue of a processor is found. -/
theorem cpuToQueue_of_unique (h0 : 0 ≤ cpu) (hk : k < q.nrQueues.toNat)
    (hcpu : (q.queueArray k).cpu = cpu)
    (huniq : ∀ j < q.nrQueues.toNat, (q.queueArray j).cpu = cpu → j = k) :
    q.cpuToQueue cpu = some k := by
  obtain ⟨i, hi, hdef⟩ : ∃ i < q.nrQueues.toNat,
      i = if q.nrQueues.toNat ≤ cpu.toNat then q.nrQueues.toNat - 1 else cpu.toNat := by
    refine ⟨_, ?_, rfl⟩
    split_ifs <;> omega
  have hcond : ¬ (cpu < 0 ∨ q.nrQueues.toNat = 0) := by omega
  simp only [cpuToQueue, if_neg hcond, ← hdef]
  by_cases heq : (q.queueArray i).cpu = cpu
  · rw [if_pos heq, huniq i hi heq]
  · rw [if_neg heq]
    rcases Nat.lt_trichotomy k i with hlt | rfl | hgt
    · rw [lookDown_eq_some hcpu hlt]
      · rfl
      · exact fun j hj hji hc => absurd (huniq j (hji.trans hi) hc) (Nat.ne_of_gt hj)
    · exact absurd hcpu heq
    · rw [lookDown_eq_none, lookUp_eq_some hcpu hgt.le (by omega)]
      · rfl
      · exact fun m _ hm hc => absurd (huniq m (hm.trans hk) hc) (Nat.ne_of_lt hm)
      · exact fun j hj hc => absurd (huniq j (hj.trans hi) hc) (Nat.ne_of_lt (hj.trans hgt))

theorem cpuToQueue_zero (hk : k < q.nrQueues.toNat) (hcpu : (q.queueArray k).cpu = 0)
    (hfirst : ∀ j < k, (q.queueArray j).cpu ≠ 0) : q.cpuToQueue 0 = some k := by
  have hcond : ¬ ((0 : Int) < 0 ∨ q.nrQueues.toNat = 0) := by omega
  have hi : ¬ q.nrQueues.toNat ≤ 0 := by omega
  simp only [cpuToQueue, if_neg hcond, Int.toNat_zero, if_neg hi]
  by_cases hzero : k = 0
  · rw [← hzero, if_pos hcpu]
  · rw [if_neg (hfirst 0 (Nat.pos_of_ne_zero hzero)),
      lookUp_eq_some hcpu (Nat.zero_le k) (by omega) fun m _ hm => hfirst m hm]
    rfl

end

/-- While the array does not grow, the queues keep what they have and whom they belong to: a buffer
of another thread or another processor is refused, and a processor with one queue finds it. -/
theorem queues_kept {arrived : ℕ → List (AuxtraceBuffer δ)} {privs : ℕ → Option P}
    {q : AuxtraceQueues δ P} (h : Run NoLoss arrived privs q) :
    Keeps arrived privs q ∧ Belongs arrived q ∧
      (∀ idx buffer, idx ≠ 0xffffffff → (q.addBuffer idx buffer).isSome) ∧
      (∀ idx first buffer, (arrived idx.toNat).head? = some first →
        (buffer.cpu ≠ first.cpu ∨ buffer.tid ≠ first.tid) →
        q.addBuffer idx buffer = some (-22, q)) ∧
      ∀ k first, (arrived k).head? = some first → 0 ≤ first.cpu →
        (∀ j other, (arrived j).head? = some other → other.cpu = first.cpu → j = k) →
        (first.cpu = 0 → ∀ j < k, arrived j ≠ []) → q.cpuToPtq first.cpu = privs k := by
  have hkeeps := h.keeps
  have hbelongs := h.belongs
  refine ⟨hkeeps, hbelongs, fun idx buffer hidx => addBuffer_isSome q hidx buffer,
    fun idx first buffer hfirst hne => hbelongs.addBuffer_conflict hkeeps hfirst hne, ?_⟩
  intro k first hfirst h0 huniq hzero
  have hk : k < q.nrQueues.toNat := by
    by_contra hout
    rw [(hkeeps.beyond _ (Nat.le_of_not_lt hout)).1] at hfirst
    cases hfirst
  have hcpu : (q.queueArray k).cpu = first.cpu := by
    have howned := hbelongs k hk
    rw [hfirst] at howned
    exact howned.2.2
  have hother (j : ℕ) (hj : j < q.nrQueues.toNat) (hc : (q.queueArray j).cpu = first.cpu) :
      j = k ∨ arrived j = [] ∧ first.cpu = 0 := by
    have howned := hbelongs j hj
    cases hl : arrived j with
    | nil =>
      rw [hl] at howned
      exact .inr ⟨rfl, hc ▸ howned.2⟩
    | cons other l =>
      rw [hl] at howned
      exact .inl (huniq j other (by rw [hl]; rfl) (howned.2.2.symm.trans hc))
  have hfound : q.cpuToQueue first.cpu = some k := by
    by_cases hcase : first.cpu = 0
    · rw [hcase] at hcpu ⊢
      apply cpuToQueue_zero hk hcpu
      intro j hj hc
      rcases hother j (hj.trans hk) (hc.trans hcase.symm) with rfl | ⟨hnil, -⟩
      · exact Nat.lt_irrefl j hj
      · exact hzero hcase j hj hnil
    · apply cpuToQueue_of_unique h0 hk hcpu
      intro j hj hc
      rcases hother j hj hc with heq | ⟨-, hz⟩
      · exact heq
      · exact absurd hz hcase
  rw [cpuToPtq, hfound]
  exact hkeeps.priv k hk

def grown : AuxtraceQueues Unit Unit :=
  (AuxtraceQueues.copied init 64).accept 40 { set := true, tid := 7, cpu := 1 } ⟨(), 7, 1, 0⟩

theorem grown_kept :
    (grown.attach 40 ()).cpuToPtq 1 = some () ∧
      (grown.attach 40 ()).addBuffer 40 ⟨(), 8, 1, 0⟩ = some (-22, grown.attach 40 ()) := by
  have hadd : (init : AuxtraceQueues Unit Unit).addBuffer 40 ⟨(), 7, 1, 0⟩ = some (0, grown) := rfl
  have hno : NoLoss (init : AuxtraceQueues Unit Unit) 40 := .inr fun _ _ => rfl
  have hrun := (Run.init.accepted hno hadd).attach (show 40 < 64 by decide) ()
  obtain ⟨-, -, -, hrefused, hfound⟩ := queues_kept hrun
  constructor
  · apply hfound 40 ⟨(), 7, 1, 0⟩ rfl (by decide)
    · intro j other hj _
      by_contra hne
      rw [update_of_ne (show j ≠ UInt32.toNat 40 from hne)] at hj
      cases hj
    · intro h
      cases h
  · exact hrefused 40 ⟨(), 7, 1, 0⟩ ⟨(), 8, 1, 0⟩ rfl (.inr (by decide))

/-- A queue of processor 1 with one buffer and private data. -/
def oneQueue : AuxtraceQueues Unit Unit :=
  (init.accept 3 { set := true, tid := 7, cpu := 1 } ⟨(), 7, 1, 0⟩).attach 3 ()

theorem grown_queue_taken_over : let q₁ := (oneQueue.addBuffer 32 ⟨(), 9, 5, 0⟩).map Prod.snd
    q₁.map (·.cpuToPtq 1) = some none ∧
      (q₁.bind (·.addBuffer 3 ⟨(), 8, 2, 0⟩)).map Prod.fst = some 0 := by
  decide +kernel

end AuxtraceQueues

end RPerf.Queues
