import RPerf.Decode.Time
import Mathlib.Order.Bounds.Basic

/-!
# TSC packets and the 56-bit counter

`intel_pt_calc_tsc_timestamp` puts the top byte of the time it knows on the 56 bits of a
packet.
-/

namespace RPerf.Decode.Clock

open Lib Packets

variable {slip now payload ref : UInt64}

/-- How late a packet is, as far as its 56 bits tell. -/
def lateness (now payload : UInt64) : ℤ := ((now.toNat : ℤ) - payload.toNat) % 2 ^ 56

def Extends (slip now payload result : UInt64) : Prop :=
  if lateness now payload < slip.toNat then result = now
  else IsLeast {t : ℕ | now.toNat ≤ t ∧ t % 2 ^ 56 = payload.toNat} result.toNat

def Near (ref payload result : UInt64) : Prop :=
  result.toNat % 2 ^ 56 = payload.toNat ∧
    ((result - ref).toNat ≤ 2 ^ 55 ∨ (ref - result).toNat ≤ 2 ^ 55)

def SlippedOverWrap (slip now payload : UInt64) : Prop :=
  now.toNat % 2 ^ 56 < payload.toNat ∧ lateness now payload < slip.toNat

theorem toNat_or_topByte (now : UInt64) (hq : payload.toNat < 2 ^ 56) :
    (payload ||| (now &&& topByte)).toNat = now.toNat / 2 ^ 56 * 2 ^ 56 + payload.toNat := by
  have htop : topByte.toNat = 2 ^ 64 - 2 ^ 56 := by decide
  rw [UInt64.toNat_or, UInt64.toNat_and, htop, or_and_high now.toNat_lt (by decide) hq]

theorem lateness_of_le (hq : payload.toNat < 2 ^ 56) (hle : payload.toNat ≤ now.toNat % 2 ^ 56) :
    lateness now payload = now.toNat % 2 ^ 56 - payload.toNat := by
  unfold lateness
  omega

theorem toNat_advanceTsc (slip : UInt64) (hq : payload.toNat < 2 ^ 56)
    (hroom : now.toNat + 2 ^ 56 < 2 ^ 64) :
    (advanceTsc slip now payload).2.toNat =
      if now.toNat % 2 ^ 56 ≤ payload.toNat then now.toNat / 2 ^ 56 * 2 ^ 56 + payload.toNat
      else if lateness now payload < slip.toNat then now.toNat
      else (now.toNat / 2 ^ 56 + 1) * 2 ^ 56 + payload.toNat := by
  have hts := toNat_or_topByte now hq
  simp only [advanceTsc]
  generalize payload ||| (now &&& topByte) = ts at hts ⊢
  by_cases hle : now.toNat % 2 ^ 56 ≤ payload.toNat
  · have hback : ¬ ts < now := by
      rw [UInt64.lt_iff_toNat_lt]
      omega
    rw [if_neg hback, if_pos hle]
    exact hts
  · have hback : ts < now := by
      rw [UInt64.lt_iff_toNat_lt]
      omega
    have hsub : (now - ts).toNat = now.toNat % 2 ^ 56 - payload.toNat := by
      rw [UInt64.toNat_sub_of_le _ _ (UInt64.le_of_lt hback)]
      omega
    have hslip : now - ts < slip ↔ lateness now payload < slip.toNat := by
      rw [UInt64.lt_iff_toNat_lt, hsub, lateness_of_le hq (by omega)]
      omega
    rw [if_pos hback, if_neg hle]
    by_cases hlate : now - ts < slip
    · rw [if_pos hlate, if_pos (hslip.mp hlate)]
    · have hwrap : tscWrap.toNat = 2 ^ 56 := by decide
      have hadd : (ts + tscWrap).toNat = ts.toNat + 2 ^ 56 := by
        rw [UInt64.toNat_add, hwrap]
        exact Nat.mod_eq_of_lt (by omega)
      rw [if_neg hlate, if_neg (hslip.not.mp hlate), hadd]
      omega

theorem isLeast_of_lt {t : ℕ} (hle : now.toNat ≤ t)
    (hlt : t < now.toNat + 2 ^ 56) (hmod : t % 2 ^ 56 = payload.toNat) :
    IsLeast {t : ℕ | now.toNat ≤ t ∧ t % 2 ^ 56 = payload.toNat} t := by
  refine ⟨⟨hle, hmod⟩, ?_⟩
  rintro t' ⟨hle', hmod'⟩
  omega

theorem extends_advanceTsc_iff (hq : payload.toNat < 2 ^ 56) (hroom : now.toNat + 2 ^ 56 < 2 ^ 64) :
    Extends slip now payload (advanceTsc slip now payload).2 ↔
      ¬ SlippedOverWrap slip now payload := by
  have hval := toNat_advanceTsc slip hq hroom
  unfold Extends SlippedOverWrap
  rw [← UInt64.toNat_inj]
  generalize (advanceTsc slip now payload).2.toNat = result at hval ⊢
  by_cases hlate : lateness now payload < slip.toNat
  · simp only [hlate, if_true, and_true] at hval ⊢
    split_ifs at hval with hle
    · omega
    · omega
  · simp only [hlate, if_false, and_false, not_false_eq_true, iff_true] at hval ⊢
    apply isLeast_of_lt
    all_goals split_ifs at hval <;> omega

theorem near_anchorTsc (hq : payload.toNat < 2 ^ 56) :
    Near ref payload (anchorTsc ref payload) := by
  have hts := toNat_or_topByte ref hq
  have href := ref.toNat_lt
  have hwrap : tscWrap.toNat = 2 ^ 56 := by decide
  have hhalf : halfWrap.toNat = 2 ^ 55 := by decide
  simp only [anchorTsc, Near]
  generalize payload ||| (ref &&& topByte) = ts at hts ⊢
  have hdist : ∀ a b : UInt64, (a - b).toNat = (2 ^ 64 - b.toNat + a.toNat) % 2 ^ 64 :=
    UInt64.toNat_sub
  simp only [gt_iff_lt, UInt64.lt_iff_toNat_lt, hdist, hhalf]
  split_ifs with hback hfar hfar
  · rw [UInt64.toNat_add, hwrap]
    omega
  · omega
  · rw [hdist, hwrap]
    omega
  · omega

/-- A TSC packet extends the time over the wraps of its 56 bits, but for a slipped packet from the
other side of a wrap, and is taken as near as can be to a reference time. -/
theorem tsc_timestamp_extends_iff (clk : Clock) (t : Timing) (rd : Reader)
    (hq : rd.packet.payload.toNat < 2 ^ 56) :
    (clk.refTimestamp = 0 → clk.timestamp ≠ 0 → clk.timestamp.toNat + 2 ^ 56 < 2 ^ 64 →
      (Extends t.tscSlip.toUInt64 clk.timestamp rd.packet.payload
          (clk.calcTscTimestamp t rd).timestamp ↔
        ¬ SlippedOverWrap t.tscSlip.toUInt64 clk.timestamp rd.packet.payload)) ∧
      (clk.refTimestamp ≠ 0 →
        Near clk.refTimestamp rd.packet.payload (clk.calcTscTimestamp t rd).timestamp) := by
  simp only [calcTscTimestamp, restartCyc_timestamp]
  constructor
  · intro href hnow hroom
    rw [if_neg (not_not.mpr href), if_pos hnow]
    exact extends_advanceTsc_iff hq hroom
  · intro href
    rw [if_pos href]
    exact near_anchorTsc hq

/-- A packet 3 ticks ahead of the time, and the same next to a reference time. -/
theorem next_packets_extend :
    Extends 0x100 5 8 (({ timestamp := 5 } : Clock).calcTscTimestamp {}
        { packet := { type := .tsc, payload := 8 } }).timestamp ∧
      Near 5 8 (({ refTimestamp := 5 } : Clock).calcTscTimestamp {}
        { packet := { type := .tsc, payload := 8 } }).timestamp := by
  have hextends := tsc_timestamp_extends_iff { timestamp := 5 } {}
    { packet := { type := .tsc, payload := 8 } } (by decide)
  have hnear := tsc_timestamp_extends_iff { refTimestamp := 5 } {}
    { packet := { type := .tsc, payload := 8 } } (by decide)
  refine ⟨(hextends.1 rfl (by decide) (by decide)).mpr ?_, hnear.2 (by decide)⟩
  rintro ⟨-, hlate⟩
  exact absurd hlate (by decide)

theorem slipped_packet_jumps :
    lateness 0x100000000000005 0xfffffffffffffd = 8 ∧
      (({ timestamp := 0x100000000000005 } : Clock).calcTscTimestamp {}
        { packet := { type := .tsc, payload := 0xfffffffffffffd } }).timestamp =
          0x1fffffffffffffd ∧
      ¬ Extends ({} : Timing).tscSlip.toUInt64 0x100000000000005 0xfffffffffffffd
        (({ timestamp := 0x100000000000005 } : Clock).calcTscTimestamp {}
          { packet := { type := .tsc, payload := 0xfffffffffffffd } }).timestamp := by
  have hlate : lateness 0x100000000000005 0xfffffffffffffd = 8 := by decide
  have hjump : (({ timestamp := 0x100000000000005 } : Clock).calcTscTimestamp {}
      { packet := { type := .tsc, payload := 0xfffffffffffffd } }).timestamp =
        0x1fffffffffffffd := by
    decide +kernel
  refine ⟨hlate, hjump, ?_⟩
  rw [Extends, hlate, hjump]
  decide

end RPerf.Decode.Clock
