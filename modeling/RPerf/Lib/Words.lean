import Mathlib.Data.Nat.Bitwise
import Mathlib.Tactic

/-!
# Machine words

Quotients taken in two parts, so that no product gets too large, and the high bits of a
word.
-/

namespace RPerf.Lib

theorem mul_div_split (a m : ℕ) {d : ℕ} (hd : 0 < d) : a * m / d = a / d * m + a % d * m / d := by
  have ha : a * m = a % d * m + d * (a / d * m) := by
    rw [← Nat.mul_assoc, ← Nat.add_mul, Nat.mod_add_div]
  rw [ha, Nat.add_mul_div_left _ _ hd, Nat.add_comm]

theorem div_mul_div_le (c m d : ℕ) (hm : 0 < m) : c * m / d * d / m ≤ c := by
  calc c * m / d * d / m ≤ c * m / m := Nat.div_le_div_right (Nat.div_mul_le_self _ _)
    _ = c := Nat.mul_div_cancel c hm

theorem div_mul_div_near (t m d : ℕ) (hm : 0 < m) (hle : m ≤ d) :
    t * d / m * m / d ≤ t ∧ t ≤ t * d / m * m / d + 1 := by
  have hd : 0 < d := hm.trans_le hle
  have hbelow : t * d / m * m ≤ t * d := Nat.div_mul_le_self _ _
  have habove : t * d < t * d / m * m + m := Nat.lt_div_mul_add hm
  constructor
  · exact Nat.div_le_of_le_mul (by rwa [Nat.mul_comm d t])
  · have hceil : t * d / m * m < t * d / m * m / d * d + d := Nat.lt_div_mul_add hd
    by_contra hlt
    have hlost : (t * d / m * m / d + 1 + 1) * d ≤ t * d := Nat.mul_le_mul_right d (by omega)
    rw [Nat.succ_mul, Nat.succ_mul] at hlost
    omega

theorem and_high {x w k : ℕ} (hx : x < 2 ^ w) (hk : k ≤ w) :
    x &&& (2 ^ w - 2 ^ k) = x / 2 ^ k * 2 ^ k := by
  have hmask : 2 ^ w - 2 ^ k = (2 ^ (w - k) - 1) * 2 ^ k := by
    rw [Nat.sub_mul, Nat.one_mul, ← Nat.pow_add, Nat.sub_add_cancel hk]
  rw [hmask]
  refine Nat.eq_of_testBit_eq fun i => ?_
  rw [Nat.testBit_and, Nat.testBit_mul_two_pow, Nat.testBit_mul_two_pow,
    Nat.testBit_two_pow_sub_one, Nat.testBit_div_two_pow]
  by_cases hi : k ≤ i
  · rw [Nat.sub_add_cancel hi]
    by_cases hlt : i < w
    · simp [hi, show i - k < w - k by omega]
    · have hpow : x < 2 ^ i := hx.trans_le (Nat.pow_le_pow_right (by norm_num) (by omega))
      simp [Nat.testBit_lt_two_pow hpow]
  · simp [hi]

theorem or_and_high {x y w k : ℕ} (hx : x < 2 ^ w) (hk : k ≤ w) (hy : y < 2 ^ k) :
    y ||| (x &&& (2 ^ w - 2 ^ k)) = x / 2 ^ k * 2 ^ k + y := by
  rw [and_high hx hk, Nat.or_comm, Nat.mul_comm, Nat.two_pow_add_eq_or_of_lt hy]

end RPerf.Lib
