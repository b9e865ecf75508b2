import RPerf.Packets.Format
import Mathlib.Data.List.GetD

/-!
# Cycle counts

`encodeCyc` writes a count as the processor does: five bits behind the header of the first
byte, seven in each byte that follows, and an extension bit on every byte but the last.
-/

namespace RPerf.Packets

open Lib

def encodeTail : ℕ → ℕ → List UInt8
  | 0, _ => []
  | n + 1, w => UInt8.ofNat (2 * (w % 128) + if n = 0 then 0 else 1) :: encodeTail n (w / 128)

/-- The CYC packet of `n` bytes for the count `v`. -/
def encodeCyc (n v : ℕ) : List UInt8 :=
  UInt8.ofNat (8 * (v % 32) + (if n = 1 then 0 else 4) + 3) :: encodeTail (n - 1) (v / 32)

@[simp] theorem encodeTail_length (n w : ℕ) : (encodeTail n w).length = n := by
  induction n generalizing w with
  | zero => rfl
  | succ n ih => simp [encodeTail, ih]

theorem encodeCyc_length {n : ℕ} (hn : 1 ≤ n) (v : ℕ) : (encodeCyc n v).length = n := by
  simp only [encodeCyc, List.length_cons, encodeTail_length]
  omega

def cycDigit (d s : ℕ) : ℕ := d <<< (s % 32) % 2 ^ 32

theorem cycDigit_lt (d s : ℕ) : cycDigit d s < 2 ^ 32 := Nat.mod_lt _ (by norm_num)

theorem cycDigit_of_fits {d s : ℕ} (h : d * 2 ^ s < 2 ^ 32) : cycDigit d s = d * 2 ^ s := by
  rcases Nat.eq_zero_or_pos d with rfl | hd
  · simp [cycDigit]
  · have hs : s < 32 := by
      by_contra hge
      have hpow : 2 ^ 32 ≤ 2 ^ s := Nat.pow_le_pow_right (by norm_num) (by omega)
      have hmul : 2 ^ s ≤ d * 2 ^ s := Nat.le_mul_of_pos_left _ hd
      omega
    rw [cycDigit, Nat.mod_eq_of_lt hs, Nat.shiftLeft_eq, Nat.mod_eq_of_lt h]

theorem cycDigit_lt_of_digit {d i : ℕ} (hd : d < 128) :
    cycDigit d (5 + 7 * i) < 2 ^ (5 + 7 * (i + 1)) := by
  by_cases hs : 5 + 7 * i < 32
  · rw [cycDigit, Nat.mod_eq_of_lt hs, Nat.shiftLeft_eq]
    apply lt_of_le_of_lt (Nat.mod_le _ _)
    rw [show 5 + 7 * (i + 1) = 7 + (5 + 7 * i) by omega, Nat.pow_add 2 7]
    exact Nat.mul_lt_mul_of_pos_right hd (Nat.two_pow_pos _)
  · apply lt_of_lt_of_le (cycDigit_lt _ _)
    exact Nat.pow_le_pow_right (by norm_num) (by omega)

theorem cycDigit_toNat (byte : UInt8) (s : ℕ) (hs : s < 2 ^ 32) :
    ((byte.toUInt32 >>> 1) <<< UInt32.ofNat s).toUInt64.toNat = cycDigit (byte.toNat / 2) s := by
  simp only [UInt32.toNat_toUInt64, UInt32.toNat_shiftLeft, UInt32.toNat_shiftRight,
    UInt8.toNat_toUInt32, cycDigit]
  rw [UInt32.toNat_ofNat_of_lt' hs]
  rfl

theorem or_cycDigit {p d s : ℕ} (hp : p < 2 ^ s) (h : d * 2 ^ s < 2 ^ 32) :
    p ||| cycDigit d s = p + d * 2 ^ s := by
  rw [cycDigit_of_fits h, Nat.or_comm, Nat.mul_comm, ← Nat.two_pow_add_eq_or_of_lt hp, Nat.add_comm]

theorem tail_head (n w : ℕ) (byte : UInt8)
    (h : byte = UInt8.ofNat (2 * (w % 128) + if n = 0 then 0 else 1)) :
    byte.toNat / 2 = w % 128 ∧ (byte.toUInt32 &&& 1 = 0 ↔ n = 0) := by
  have hval : byte.toNat = 2 * (w % 128) + if n = 0 then 0 else 1 := by
    rw [h, UInt8.toNat_ofNat']
    split_ifs <;> omega
  constructor
  · rw [hval]
    split_ifs <;> omega
  · rw [← UInt32.toNat_inj, UInt32.toNat_and, UInt8.toNat_toUInt32, hval]
    have hone : (1 : UInt32).toNat = 2 ^ 1 - 1 := rfl
    rw [hone, Nat.and_two_pow_sub_one_eq_mod]
    split_ifs with hn
    · simp [hn]
    · simp only [hn, iff_false]
      change ¬ _ = 0
      omega

theorem getCycLoop_tail (buf : Bytes) (len : ℕ) : ∀ k w i fuel byte payload,
    k < fuel → i + k ≤ 8 → i + 1 + k ≤ len → (byte &&& 1 = 0 ↔ k = 0) →
    (∀ j < k, buf (i + 1 + j) = (encodeTail k w).getD j 0) →
    w < 2 ^ (7 * k) → payload.toNat < 2 ^ (5 + 7 * i) → payload.toNat < 2 ^ 32 →
    ∃ result, getCycLoop buf len fuel (i + 1) byte payload = (.accept (i + 1 + k), result) ∧
      result.toNat < 2 ^ 32 ∧
      (payload.toNat + w * 2 ^ (5 + 7 * i) < 2 ^ 32 →
        result.toNat = payload.toNat + w * 2 ^ (5 + 7 * i)) := by
  intro k
  induction k with
  | zero =>
    intro w i fuel byte payload hfuel hi hlen hbyte hbuf hw hfit hword
    obtain ⟨fuel, rfl⟩ : ∃ f, fuel = f + 1 := ⟨fuel - 1, by omega⟩
    have hzero : w = 0 := by simpa using hw
    refine ⟨payload, ?_, hword, fun _ => by simp [hzero]⟩
    rw [getCycLoop, if_pos (hbyte.mpr rfl)]
  | succ k ih =>
    intro w i fuel byte payload hfuel hi hlen hbyte hbuf hw hfit hword
    obtain ⟨fuel, rfl⟩ : ∃ f, fuel = f + 1 := ⟨fuel - 1, by omega⟩
    have hmore : ¬ (byte &&& 1 = 0) := fun h => by simpa using hbyte.mp h
    have hnext : buf (i + 1) = UInt8.ofNat (2 * (w % 128) + if k = 0 then 0 else 1) := by
      simpa [encodeTail] using hbuf 0 (by omega)
    obtain ⟨hdigit, hext⟩ := tail_head k w (buf (i + 1)) hnext
    rw [getCycLoop, if_neg hmore, if_neg (by omega), if_neg (by omega)]
    set step := payload ||| (((buf (i + 1)).toUInt32 >>> 1) <<<
      UInt32.ofNat (5 + 7 * (i + 1 - 1))).toUInt64 with hstep
    have hstepNat : step.toNat = payload.toNat ||| cycDigit (w % 128) (5 + 7 * i) := by
      rw [hstep, UInt64.toNat_or, Nat.add_sub_cancel, cycDigit_toNat _ _ (by omega), hdigit]
    have hsplit : w = w % 128 + 128 * (w / 128) := (Nat.mod_add_div w 128).symm
    have hpow : 2 ^ (5 + 7 * (i + 1)) = 128 * 2 ^ (5 + 7 * i) := by
      rw [show 5 + 7 * (i + 1) = 7 + (5 + 7 * i) by omega, Nat.pow_add]
    have hstepFit : step.toNat < 2 ^ (5 + 7 * (i + 1)) := by
      rw [hstepNat]
      apply Nat.or_lt_two_pow
      · omega
      · apply cycDigit_lt_of_digit
        exact Nat.mod_lt _ (by norm_num)
    have hstepWord : step.toNat < 2 ^ 32 := by
      rw [hstepNat]
      exact Nat.or_lt_two_pow hword (cycDigit_lt _ _)
    have hrest : ∀ j < k, buf (i + 1 + 1 + j) = (encodeTail k (w / 128)).getD j 0 := by
      intro j hj
      have h := hbuf (j + 1) (by omega)
      rw [show i + 1 + (j + 1) = i + 1 + 1 + j by omega] at h
      simpa [encodeTail] using h
    have hquot : w / 128 < 2 ^ (7 * k) := by
      rw [Nat.div_lt_iff_lt_mul (by norm_num)]
      rw [show 7 * (k + 1) = 7 * k + 7 by omega, Nat.pow_add] at hw
      exact hw
    obtain ⟨result, hrun, hsmall, hexact⟩ := ih (w / 128) (i + 1) fuel _ step (by omega)
      (by omega) (by omega) hext hrest hquot hstepFit hstepWord
    refine ⟨result, ?_, hsmall, fun htotal => ?_⟩
    · rw [hrun]
      congr 2
      omega
    · have hsum : w * 2 ^ (5 + 7 * i) =
          w % 128 * 2 ^ (5 + 7 * i) + w / 128 * 2 ^ (5 + 7 * (i + 1)) := by
        rw [hpow]
        nth_rewrite 1 [hsplit]
        ring
      have hdigitFits : w % 128 * 2 ^ (5 + 7 * i) < 2 ^ 32 := by omega
      have hstepSum : step.toNat = payload.toNat + w % 128 * 2 ^ (5 + 7 * i) := by
        rw [hstepNat, or_cycDigit hfit hdigitFits]
      rw [hexact (by omega)]
      omega

theorem cyc_head (n v : ℕ) (byte : UInt8)
    (h : byte = UInt8.ofNat (8 * (v % 32) + (if n = 1 then 0 else 4) + 3)) :
    byte &&& 1 ≠ 0 ∧ byte &&& 2 ≠ 0 ∧ (byte >>> 3).toUInt64.toNat = v % 32 ∧
      (byte.toUInt32 >>> 2 &&& 1 = 0 ↔ n = 1) := by
  have hdigit : v % 32 < 32 := Nat.mod_lt _ (by norm_num)
  generalize v % 32 = d at h hdigit
  subst h
  by_cases hn : n = 1
  · simp only [hn, if_true, iff_true]
    interval_cases d <;> decide
  · simp only [hn, if_false, iff_false]
    interval_cases d <;> decide

/-- Every legal packet is taken whole. -/
theorem doGetPacket_encodeCyc {n v : ℕ} (hn : 1 ≤ n) (hmax : n ≤ 9) (hv : v < 2 ^ (7 * n - 2))
    (rest : List UInt8) :
    ∃ payload : UInt64, doGetPacket (bytesOf (encodeCyc n v ++ rest))
        (encodeCyc n v ++ rest).length = (.accept n, { type := .cyc, payload := payload }) ∧
      payload.toNat < 2 ^ 32 ∧ (v < 2 ^ 32 → payload.toNat = v) := by
  set buf := bytesOf (encodeCyc n v ++ rest) with hbuf
  set len := (encodeCyc n v ++ rest).length with hlen
  have hlenVal : len = n + rest.length := by
    rw [hlen, List.length_append, encodeCyc_length hn]
  obtain ⟨hodd, hcyc, hlow, hext⟩ := cyc_head n v (buf 0) (by simp [hbuf, bytesOf, encodeCyc])
  have htail : ∀ j < n - 1, buf (0 + 1 + j) = (encodeTail (n - 1) (v / 32)).getD j 0 := by
    intro j hj
    rw [hbuf, bytesOf, show 0 + 1 + j = j + 1 by omega, encodeCyc, List.cons_append,
      List.getD_cons_succ, List.getD_append _ _ _ _ (by simpa using hj)]
  have hquot : v / 32 < 2 ^ (7 * (n - 1)) := by
    rw [Nat.div_lt_iff_lt_mul (by norm_num)]
    rw [show 7 * n - 2 = 7 * (n - 1) + 5 by omega, Nat.pow_add] at hv
    exact hv
  obtain ⟨payload, hrun, hsmall, hexact⟩ := getCycLoop_tail buf len (n - 1) (v / 32) 0 10
    ((buf 0).toUInt32 >>> 2) (buf 0 >>> 3).toUInt64 (by omega) (by omega) (by omega)
    (by rw [hext]; omega) htail hquot (by rw [hlow]; omega) (by rw [hlow]; omega)
  refine ⟨payload, ?_, hsmall, fun hfits => ?_⟩
  · simp only [doGetPacket]
    rw [if_neg (by omega), if_neg hodd, if_pos hcyc, getCyc, hrun]
    simp only [show 0 + 1 + (n - 1) = n by omega]
  · rw [hexact (by rw [hlow]; omega), hlow]
    omega

/-- `intel_pt_get_packet` on a count of up to 61 bits, in any legal length and with anything behind
it: the packet is a CYC of the encoded length, and its payload is the count exactly when the count
fits in 32 bits. -/
theorem getPacket_cyc {n v : ℕ} (hn : 1 ≤ n) (hmax : n ≤ 9) (hv : v < 2 ^ (7 * n - 2))
    (rest : List UInt8) :
    (doGetPacket (bytesOf (encodeCyc n v ++ rest)) (encodeCyc n v ++ rest).length).1 =
        .accept n ∧
      (getPacket (bytesOf (encodeCyc n v ++ rest)) (encodeCyc n v ++ rest).length).2.type =
        .cyc ∧
      ((getPacket (bytesOf (encodeCyc n v ++ rest))
          (encodeCyc n v ++ rest).length).2.payload.toNat = v ↔ v < 2 ^ 32) := by
  obtain ⟨payload, hget, hsmall, hexact⟩ := doGetPacket_encodeCyc hn hmax hv rest
  simp only [getPacket, hget, true_and]
  constructor
  · intro h
    omega
  · exact hexact

theorem getPacket_cyc_long :
    (1 ≤ 9 ∧ 9 ≤ 9 ∧ 123456 < 2 ^ (7 * 9 - 2)) ∧
      (getPacket (bytesOf (encodeCyc 9 123456 ++ [0])) 10).2.payload.toNat = 123456 :=
  ⟨by norm_num, (getPacket_cyc (n := 9) (v := 123456) (by norm_num) (by norm_num) (by norm_num)
    [0]).2.2.mpr (by norm_num)⟩

theorem getPacket_cyc_lost :
    (2 ^ 32 < 2 ^ (7 * 5 - 2)) ∧
      getPacket (bytesOf (encodeCyc 5 (2 ^ 32))) 5 =
        (.accept 5, { type := .cyc, payload := 0 }) := by
  decide +kernel

end RPerf.Packets
