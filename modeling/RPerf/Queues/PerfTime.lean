import RPerf.Queues.Switch

/-!
# Perf time and TSC

`perf_time_to_tsc` and `tsc_to_perf_time` of `tsc.c`.
-/

namespace RPerf.Queues

open Lib

variable {tc : TscConversion}

/-- `perf_time_to_tsc` has a count of 64 bits for this time. -/
structure TscConversion.Counts (tc : TscConversion) (ns : UInt64) : Prop where
  shift : tc.timeShift ≤ 32
  mult : 0 < tc.timeMult
  started : tc.timeZero ≤ ns
  fits : (ns.toNat - tc.timeZero.toNat) * 2 ^ tc.timeShift.toNat / tc.timeMult.toNat < 2 ^ 64

/-- No operation of `perf_time_to_tsc` wraps. -/
structure ToTscExact (ns : UInt64) (tc : TscConversion) : Prop where
  sub : tc.timeZero ≤ ns
  high : (ns.toNat - tc.timeZero.toNat) / tc.timeMult.toNat * 2 ^ tc.timeShift.toNat < 2 ^ 64
  low : (ns.toNat - tc.timeZero.toNat) % tc.timeMult.toNat * 2 ^ tc.timeShift.toNat < 2 ^ 64
  sum : (ns.toNat - tc.timeZero.toNat) / tc.timeMult.toNat * 2 ^ tc.timeShift.toNat +
    (ns.toNat - tc.timeZero.toNat) % tc.timeMult.toNat * 2 ^ tc.timeShift.toNat /
      tc.timeMult.toNat < 2 ^ 64

/-- No operation of `tsc_to_perf_time` wraps. -/
structure ToPerfExact (cyc : UInt64) (tc : TscConversion) : Prop where
  mask : 2 ^ tc.timeShift.toNat < 2 ^ 64
  high : cyc.toNat / 2 ^ tc.timeShift.toNat * tc.timeMult.toNat < 2 ^ 64
  low : cyc.toNat % 2 ^ tc.timeShift.toNat * tc.timeMult.toNat < 2 ^ 64
  sum : tc.timeZero.toNat + cyc.toNat / 2 ^ tc.timeShift.toNat * tc.timeMult.toNat < 2 ^ 64
  total : tc.timeZero.toNat + cyc.toNat / 2 ^ tc.timeShift.toNat * tc.timeMult.toNat +
    cyc.toNat % 2 ^ tc.timeShift.toNat * tc.timeMult.toNat / 2 ^ tc.timeShift.toNat < 2 ^ 64

theorem timeShift_le (h : tc.timeShift ≤ 32) : 2 ^ tc.timeShift.toNat ≤ 2 ^ 32 :=
  Nat.pow_le_pow_right (by decide) (UInt16.le_iff_toNat_le.mp h)

theorem timeMult_pos (h : 0 < tc.timeMult) : 0 < tc.timeMult.toNat :=
  UInt32.lt_iff_toNat_lt.mp h

theorem toNat_shiftLeft_timeShift (h : tc.timeShift ≤ 32) {x : UInt64}
    (hfits : x.toNat * 2 ^ tc.timeShift.toNat < 2 ^ 64) :
    (x <<< tc.timeShift.toUInt64).toNat = x.toNat * 2 ^ tc.timeShift.toNat := by
  have hshift : tc.timeShift.toNat ≤ 32 := UInt16.le_iff_toNat_le.mp h
  have hmod : tc.timeShift.toUInt64.toNat % 64 = tc.timeShift.toNat := by
    rw [UInt16.toNat_toUInt64]
    omega
  rw [UInt64.toNat_shiftLeft, hmod, Nat.shiftLeft_eq, Nat.mod_eq_of_lt hfits]

variable {ns cyc : UInt64}

theorem TscConversion.Counts.exact (h : tc.Counts ns) : ToTscExact ns tc := by
  have hpow := timeShift_le h.shift
  have hpos := timeMult_pos h.mult
  have hmult := tc.timeMult.toNat_lt
  have hfits := h.fits
  rw [mul_div_split _ _ hpos] at hfits
  have hrem := Nat.mod_lt (ns.toNat - tc.timeZero.toNat) hpos
  refine ⟨h.started, (Nat.le_add_right _ _).trans_lt hfits, ?_, hfits⟩
  calc (ns.toNat - tc.timeZero.toNat) % tc.timeMult.toNat * 2 ^ tc.timeShift.toNat
      ≤ (ns.toNat - tc.timeZero.toNat) % tc.timeMult.toNat * 2 ^ 32 :=
        Nat.mul_le_mul_left _ hpow
    _ < 2 ^ 64 := by omega

theorem toNat_perfTimeToTsc (h : tc.Counts ns) :
    (perfTimeToTsc ns tc).toNat =
      (ns.toNat - tc.timeZero.toNat) * 2 ^ tc.timeShift.toNat / tc.timeMult.toNat := by
  have hexact := h.exact
  have hsub : (ns - tc.timeZero).toNat = ns.toNat - tc.timeZero.toNat :=
    UInt64.toNat_sub_of_le _ _ h.started
  have hquot : ((ns - tc.timeZero) / tc.timeMult.toUInt64).toNat =
      (ns.toNat - tc.timeZero.toNat) / tc.timeMult.toNat := by
    rw [UInt64.toNat_div, hsub, UInt32.toNat_toUInt64]
  have hrem : ((ns - tc.timeZero) % tc.timeMult.toUInt64).toNat =
      (ns.toNat - tc.timeZero.toNat) % tc.timeMult.toNat := by
    rw [UInt64.toNat_mod, hsub, UInt32.toNat_toUInt64]
  have hhigh := hexact.high
  have hlow := hexact.low
  rw [← hquot] at hhigh
  rw [← hrem] at hlow
  simp only [perfTimeToTsc]
  rw [UInt64.toNat_add, UInt64.toNat_div, toNat_shiftLeft_timeShift h.shift hhigh,
    toNat_shiftLeft_timeShift h.shift hlow, hquot, hrem, UInt32.toNat_toUInt64,
    Nat.mod_eq_of_lt hexact.sum,
    mul_div_split (ns.toNat - tc.timeZero.toNat) _ (timeMult_pos h.mult)]

theorem TscConversion.Counts.of_le {a b : UInt64} (h : tc.Counts b) (ha : tc.timeZero ≤ a)
    (hle : a ≤ b) : tc.Counts a := by
  have hnat := UInt64.le_iff_toNat_le.mp hle
  refine ⟨h.shift, h.mult, ha, lt_of_le_of_lt ?_ h.fits⟩
  exact Nat.div_le_div_right (Nat.mul_le_mul_right _ (by omega))

theorem perfTimeToTsc_mono {a b : UInt64} (h : tc.Counts b) (ha : tc.timeZero ≤ a)
    (hle : a ≤ b) : perfTimeToTsc a tc ≤ perfTimeToTsc b tc := by
  have hnat := UInt64.le_iff_toNat_le.mp hle
  rw [UInt64.le_iff_toNat_le, toNat_perfTimeToTsc h, toNat_perfTimeToTsc (h.of_le ha hle)]
  exact Nat.div_le_div_right (Nat.mul_le_mul_right _ (by omega))

theorem TscConversion.Converts.exact (h : tc.Converts cyc) : ToPerfExact cyc tc := by
  have hpow := timeShift_le h.shift
  have hone : 0 < 2 ^ tc.timeShift.toNat := Nat.two_pow_pos _
  have hmult := tc.timeMult.toNat_lt
  have htotal := h.fits
  rw [mul_div_split _ _ hone, ← Nat.add_assoc] at htotal
  have hsum := (Nat.le_add_right _ _).trans_lt htotal
  have hrem := Nat.mod_lt cyc.toNat hone
  refine ⟨by omega, (Nat.le_add_left _ _).trans_lt hsum, ?_, hsum, htotal⟩
  calc cyc.toNat % 2 ^ tc.timeShift.toNat * tc.timeMult.toNat
      ≤ 2 ^ 32 * tc.timeMult.toNat := Nat.mul_le_mul_right _ (by omega)
    _ < 2 ^ 64 := by omega

theorem TscConversion.Converts.counts (h : tc.Converts cyc) (hmult : 0 < tc.timeMult) :
    tc.Counts (tscToPerfTime cyc tc) := by
  have hback := div_mul_div_le cyc.toNat tc.timeMult.toNat (2 ^ tc.timeShift.toNat)
    (timeMult_pos hmult)
  have hcyc := cyc.toNat_lt
  refine ⟨h.shift, hmult, ?_, ?_⟩
  · rw [UInt64.le_iff_toNat_le, toNat_tscToPerfTime h]
    exact Nat.le_add_right _ _
  · rw [toNat_tscToPerfTime h, Nat.add_sub_cancel_left]
    omega

theorem perfTimeToTsc_tscToPerfTime_le (h : tc.Converts cyc) (hmult : 0 < tc.timeMult) :
    perfTimeToTsc (tscToPerfTime cyc tc) tc ≤ cyc := by
  rw [UInt64.le_iff_toNat_le, toNat_perfTimeToTsc (h.counts hmult), toNat_tscToPerfTime h,
    Nat.add_sub_cancel_left]
  exact div_mul_div_le _ _ _ (timeMult_pos hmult)

theorem TscConversion.Counts.converts (h : tc.Counts ns)
    (hle : tc.timeMult.toNat ≤ 2 ^ tc.timeShift.toNat) : tc.Converts (perfTimeToTsc ns tc) := by
  have hback := div_mul_div_near (ns.toNat - tc.timeZero.toNat) tc.timeMult.toNat _
    (timeMult_pos h.mult) hle
  have hns := ns.toNat_lt
  have hzero := UInt64.le_iff_toNat_le.mp h.started
  refine ⟨h.shift, ?_⟩
  rw [toNat_perfTimeToTsc h]
  omega

theorem tscToPerfTime_perfTimeToTsc (h : tc.Counts ns)
    (hle : tc.timeMult.toNat ≤ 2 ^ tc.timeShift.toNat) :
    (tscToPerfTime (perfTimeToTsc ns tc) tc).toNat = ns.toNat ∨
      (tscToPerfTime (perfTimeToTsc ns tc) tc).toNat + 1 = ns.toNat := by
  have hback := div_mul_div_near (ns.toNat - tc.timeZero.toNat) tc.timeMult.toNat _
    (timeMult_pos h.mult) hle
  have hzero := UInt64.le_iff_toNat_le.mp h.started
  rw [toNat_tscToPerfTime (h.converts hle), toNat_perfTimeToTsc h]
  omega

/-- Both conversions are exact floors, monotone and mutually consistent, and nothing in them wraps
where their result fits. -/
theorem time_conversions (tc : TscConversion) (hmult : 0 < tc.timeMult)
    (hshift : tc.timeShift ≤ 32) :
    (∀ ns : UInt64, tc.timeZero ≤ ns →
      (ns.toNat - tc.timeZero.toNat) * 2 ^ tc.timeShift.toNat / tc.timeMult.toNat < 2 ^ 64 →
        (perfTimeToTsc ns tc).toNat =
          (ns.toNat - tc.timeZero.toNat) * 2 ^ tc.timeShift.toNat / tc.timeMult.toNat ∧
        ToTscExact ns tc ∧
        (∀ earlier, tc.timeZero ≤ earlier → earlier ≤ ns →
          perfTimeToTsc earlier tc ≤ perfTimeToTsc ns tc) ∧
        (tc.timeMult.toNat ≤ 2 ^ tc.timeShift.toNat →
          (tscToPerfTime (perfTimeToTsc ns tc) tc).toNat = ns.toNat ∨
            (tscToPerfTime (perfTimeToTsc ns tc) tc).toNat + 1 = ns.toNat)) ∧
      ∀ cyc : UInt64,
        tc.timeZero.toNat + cyc.toNat * tc.timeMult.toNat / 2 ^ tc.timeShift.toNat < 2 ^ 64 →
          (tscToPerfTime cyc tc).toNat =
            tc.timeZero.toNat + cyc.toNat * tc.timeMult.toNat / 2 ^ tc.timeShift.toNat ∧
          ToPerfExact cyc tc ∧
          (∀ earlier ≤ cyc, tscToPerfTime earlier tc ≤ tscToPerfTime cyc tc) ∧
          perfTimeToTsc (tscToPerfTime cyc tc) tc ≤ cyc := by
  constructor
  · intro ns hzero hfits
    have hcounts : tc.Counts ns := ⟨hshift, hmult, hzero, hfits⟩
    exact ⟨toNat_perfTimeToTsc hcounts, hcounts.exact,
      fun earlier ha hle => perfTimeToTsc_mono hcounts ha hle,
      tscToPerfTime_perfTimeToTsc hcounts⟩
  · intro cyc hfits
    have hconv : tc.Converts cyc := ⟨hshift, hfits⟩
    exact ⟨toNat_tscToPerfTime hconv, hconv.exact,
      fun earlier hle => tscToPerfTime_mono hconv hle, perfTimeToTsc_tscToPerfTime_le hconv hmult⟩

/-- A clock of 3 GHz, as a time and as a count. -/
theorem three_ghz_converts :
    (perfTimeToTsc 1000 ⟨31, 715827882, 100⟩).toNat = 2700 ∧
      (tscToPerfTime 2700 ⟨31, 715827882, 100⟩).toNat = 999 := by
  obtain ⟨htsc, hperf⟩ := time_conversions ⟨31, 715827882, 100⟩ (by decide) (by decide)
  exact ⟨(htsc 1000 (by decide) (by decide)).1, (hperf 2700 (by decide)).1⟩

end RPerf.Queues
