import Mathlib.Tactic

/-!
# Prefix codes read through a pointer and a length

A scanner sees its input as a function from offsets to symbols together with the number of
symbols it may use.
-/

namespace RPerf.Lib

/-- What a scanner says about its input. -/
inductive Scan
  | more
  | reject
  | accept (n : ℕ)
  deriving DecidableEq, Repr

abbrev Scanner (α β : Type*) := (ℕ → α) → ℕ → Scan × β

variable {α β : Type*}

/-- The inputs agree on their first `n` symbols. -/
def Agree (n : ℕ) (a b : ℕ → α) : Prop := ∀ i < n, a i = b i

theorem Agree.mono {m n : ℕ} {a b : ℕ → α} (h : Agree n a b) (hmn : m ≤ n) : Agree m a b :=
  fun i hi => h i (hi.trans_le hmn)

theorem Agree.symm {n : ℕ} {a b : ℕ → α} (h : Agree n a b) : Agree n b a :=
  fun i hi => (h i hi).symm

/-- `n` symbols at `a` are a code word of `g` with value `v`. -/
structure Reads (k max : ℕ) (g : Scanner α β) (a : ℕ → α) (n : ℕ) (v : β) : Prop where
  low : k ≤ n
  high : n ≤ max
  extend : ∀ b len, n ≤ len → Agree n b a → g b len = (.accept n, v)
  cut : ∀ b len, k ≤ len → len < n → Agree len b a → (g b len).1 = .more

structure PrefixCode (k max : ℕ) (g : Scanner α β) : Prop where
  here : ∀ a b len, k ≤ len → Agree len a b → g a len = g b len
  reads : ∀ a len n v, k ≤ len → g a len = (.accept n, v) → n ≤ len ∧ Reads k max g a n v

namespace PrefixCode

variable {k max : ℕ} {g h : Scanner α β}

theorem congr (hg : PrefixCode k max g) (heq : ∀ a len, k ≤ len → g a len = h a len) :
    PrefixCode k max h := by
  constructor
  · intro a b len hlen hag
    rw [← heq a len hlen, ← heq b len hlen]
    exact hg.here a b len hlen hag
  intro a len n v hlen he
  obtain ⟨hn, hr⟩ := hg.reads a len n v hlen ((heq a len hlen).trans he)
  have hlow := hr.low
  refine ⟨hn, hlow, hr.high, ?_, ?_⟩
  · intro b len' hle hag
    rw [← heq b len' (hlow.trans hle), hr.extend b len' hle hag]
  · intro b len' hk hlt hag
    rw [← heq b len' hk, hr.cut b len' hk hlt hag]

theorem reject (v : β) : PrefixCode k max fun (_ : ℕ → α) _ => (Scan.reject, v) := by
  refine ⟨fun _ _ _ _ _ => rfl, ?_⟩
  intro a len n v _ he
  simp at he

theorem done (hmax : k ≤ max) (f : (ℕ → α) → β) (hf : ∀ a b, Agree k a b → f a = f b) :
    PrefixCode k max fun a _ => (Scan.accept k, f a) := by
  constructor
  · intro a b len hlen hag
    rw [hf a b (hag.mono hlen)]
  intro a len m v hlen he
  simp only [Prod.mk.injEq, Scan.accept.injEq] at he
  obtain ⟨rfl, rfl⟩ := he
  refine ⟨hlen, le_rfl, hmax, ?_, ?_⟩
  · intro b len' _ hag
    rw [hf b a hag]
  · intro b len' hle hlt _
    omega

theorem select {ι : Type*} (c : (ℕ → α) → ι) (hc : ∀ a b, Agree k a b → c a = c b)
    (f : ι → Scanner α β) (hf : ∀ i, PrefixCode k max (f i)) :
    PrefixCode k max fun a len => f (c a) a len := by
  constructor
  · intro a b len hlen hag
    rw [hc a b (hag.mono hlen)]
    exact (hf (c b)).here a b len hlen hag
  intro a len n v hlen he
  obtain ⟨hn, hr⟩ := (hf (c a)).reads a len n v hlen he
  refine ⟨hn, hr.low, hr.high, ?_, ?_⟩
  · intro b len' hle hag
    rw [hc b a (hag.mono hr.low), hr.extend b len' hle hag]
  · intro b len' hk hlt hag
    rw [hc b a (hag.mono hk), hr.cut b len' hk hlt hag]

theorem ite (c : (ℕ → α) → Prop) [DecidablePred c] (hc : ∀ a b, Agree k a b → (c a ↔ c b))
    (hg : PrefixCode k max g) (hh : PrefixCode k max h) :
    PrefixCode k max fun a len => if c a then g a len else h a len := by
  refine select (fun a => decide (c a)) (fun a b hag => decide_eq_decide.mpr (hc a b hag))
    (fun i a len => if i then g a len else h a len) ?_ |>.congr ?_
  · intro i
    cases i
    · exact hh
    · exact hg
  · intro a len _
    simp only [decide_eq_true_eq]

theorem guard {k' : ℕ} (hk : k ≤ k') (v : β) (hg : PrefixCode k' max g) :
    PrefixCode k max fun a len => if len < k' then (Scan.more, v) else g a len := by
  constructor
  · intro a b len _ hag
    by_cases hlen : len < k'
    · simp only [if_pos hlen]
    · simp only [if_neg hlen]
      exact hg.here a b len (by omega) hag
  intro a len n v _ he
  by_cases hlen : len < k'
  · simp [hlen] at he
  · simp only [hlen, if_false] at he
    obtain ⟨hn, hr⟩ := hg.reads a len n v (by omega) he
    have hlow := hr.low
    refine ⟨hn, hk.trans hlow, hr.high, ?_, ?_⟩
    · intro b len' hle hag
      rw [if_neg (by omega), hr.extend b len' hle hag]
    · intro b len' _ hlt hag
      by_cases hlen' : len' < k'
      · rw [if_pos hlen']
      · rw [if_neg hlen', hr.cut b len' (by omega) hlt hag]

theorem fixed {n : ℕ} (hk : k ≤ n) (hmax : n ≤ max) (v : β) (f : (ℕ → α) → β)
    (hf : ∀ a b, Agree n a b → f a = f b) :
    PrefixCode k max fun a len => if len < n then (Scan.more, v) else (.accept n, f a) :=
  guard hk v (done hmax f hf)

end PrefixCode

end RPerf.Lib
