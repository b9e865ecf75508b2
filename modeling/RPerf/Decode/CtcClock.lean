import RPerf.Decode.Time

/-!
# The crystal clock

A TMA packet gives the low 16 bits of the crystal clock, the MTC packets after it 8 bits
each, from `mtc_shift` on. The decoder sums the differences.
-/

namespace RPerf.Decode

open Lib Packets

def Clock.handle (t : Timing) (clk : Clock) (rd : Reader) : Clock :=
  match rd.packet.type with
  | .tsc => clk.calcTscTimestamp t rd
  | .tma => clk.calcTma t rd
  | .mtc => clk.calcMtcTimestamp t rd
  | .cyc => clk.calcCycTimestamp t rd
  | _ => clk

theorem Clock.handle_of_timedBy {rd : Reader} {f : Clock → Timing → Reader → Clock}
    (h : TimedBy rd.packet.type f) (t : Timing) (clk : Clock) : clk.handle t rd = f clk t rd := by
  generalize hty : rd.packet.type = ty at h
  cases h <;> rw [Clock.handle, hty]

theorem Decoder.time_clk (d : Decoder) (cfg : Config) {f : Clock → Timing → Reader → Clock}
    (h : TimedBy d.rd.packet.type f) : (d.time cfg f).clk = d.clk.handle cfg.timing d.rd :=
  (Clock.handle_of_timedBy h cfg.timing d.clk).symm

def CtcCount.ofTma (mtcShift : UInt32) (ctc : UInt64) : CtcCount :=
  ⟨0, (ctc.toUInt32 >>> mtcShift) &&& 0xff, true, true⟩

def CtcCount.before (c : CtcCount) (mtcShift mtc : UInt32) : UInt32 :=
  if 8 < mtcShift ∧ c.fixupLastMtc then Decode.fixupLastMtc mtc mtcShift c.lastMtc else c.lastMtc

def CtcCount.next (c : CtcCount) (mtcShift mtc : UInt32) : CtcCount :=
  if ¬ c.haveTma then c
  else
    { c with
      ctcDelta := c.ctcDelta + (mtcDelta mtc (c.before mtcShift mtc) <<< mtcShift).toUInt64
      lastMtc := mtc
      fixupLastMtc := c.fixupLastMtc && !(8 < mtcShift : Bool) }

structure SameCtc (a b : Clock) : Prop where
  ctc : a.ctc = b.ctc
  timestamp : a.timestamp = b.timestamp
  tscTimestamp : a.tscTimestamp = b.tscTimestamp
  refTimestamp : a.refTimestamp = b.refTimestamp
  ctcTimestamp : a.ctcTimestamp = b.ctcTimestamp

namespace Clock

variable (clk : Clock) (t : Timing) (rd : Reader)

theorem restartCyc_same (fromMtc : Bool) : SameCtc (clk.restartCyc t rd fromMtc) clk := by
  simp only [restartCyc, calcCycToTscFrom]
  split
  · split
    · exact ⟨rfl, rfl, rfl, rfl, rfl⟩
    · split <;> exact ⟨rfl, rfl, rfl, rfl, rfl⟩
  · exact ⟨rfl, rfl, rfl, rfl, rfl⟩

theorem calcMtcTimestamp_ctc :
    (clk.calcMtcTimestamp t rd).ctc = clk.ctc.next t.mtcShift rd.packet.payload.toUInt32 := by
  unfold calcMtcTimestamp
  by_cases htma : clk.haveTma = true
  · rw [if_neg (not_not.mpr htma)]
    simp only [(restartCyc_same _ t rd true).ctc]
    by_cases hfix : 8 < t.mtcShift ∧ clk.fixupLastMtc = true
    · simp [hfix, htma, ctc, CtcCount.next, CtcCount.before]
    · simp [hfix, htma, ctc, CtcCount.next, CtcCount.before]
      exact fun hon => UInt32.not_lt.mp fun hlt => hfix ⟨hlt, hon⟩
  · rw [if_pos htma]
    simp [ctc, CtcCount.next, htma]

theorem calcMtcTimestamp_timestamp :
    (clk.calcMtcTimestamp t rd).timestamp =
      if clk.haveTma = true then
        let timestamp := clk.ctcTimestamp +
          t.ctcTicks (clk.ctc.next t.mtcShift rd.packet.payload.toUInt32).ctcDelta
        if timestamp < clk.timestamp then clk.timestamp else timestamp
      else clk.timestamp := by
  rw [← calcMtcTimestamp_ctc]
  unfold calcMtcTimestamp
  by_cases htma : clk.haveTma = true
  · simp only [htma, not_true_eq_false, if_false, if_true, restartCyc_timestamp,
      (restartCyc_same _ t rd true).ctc]
    by_cases hfix : 8 < t.mtcShift ∧ clk.fixupLastMtc = true
    · simp only [if_pos hfix, ctc]
    · simp only [if_neg hfix, ctc]
  · rw [if_pos htma, if_neg htma]

theorem calcMtcTimestamp_same :
    (clk.calcMtcTimestamp t rd).tscTimestamp = clk.tscTimestamp ∧
      (clk.calcMtcTimestamp t rd).refTimestamp = clk.refTimestamp ∧
      (clk.calcMtcTimestamp t rd).ctcTimestamp = clk.ctcTimestamp := by
  unfold calcMtcTimestamp
  by_cases htma : clk.haveTma = true
  · rw [if_neg (not_not.mpr htma)]
    simp only [(restartCyc_same _ t rd true).tscTimestamp,
      (restartCyc_same _ t rd true).refTimestamp, (restartCyc_same _ t rd true).ctcTimestamp]
    split_ifs <;> exact ⟨rfl, rfl, rfl⟩
  · rw [if_pos htma]
    exact ⟨rfl, rfl, rfl⟩

theorem calcCycTimestamp_ctc : (clk.calcCycTimestamp t rd).ctc = clk.ctc := by
  simp only [calcCycTimestamp]
  split_ifs <;> rfl

theorem calcTma_ctc (hd : t.tscCtcRatioD ≠ 0) :
    (clk.calcTma t rd).ctc = .ofTma t.mtcShift rd.packet.payload := by
  simp only [calcTma, if_neg hd, ctc, CtcCount.ofTma]

end Clock

variable {m m' : ℕ} {s mtc : UInt32} {a b : Clock}

theorem toNat_mtcDelta {lastMtc : UInt32} (hlast : lastMtc.toNat = m % 256)
    (hmtc : mtc.toNat = m' % 256) (hlt : m < m') (hle : m' - m ≤ 256) :
    (mtcDelta mtc lastMtc).toNat = m' - m := by
  unfold mtcDelta
  by_cases h : lastMtc < mtc
  · rw [if_pos h, UInt32.toNat_sub_of_le _ _ (UInt32.le_of_lt h)]
    have := UInt32.lt_iff_toNat_lt.mp h
    omega
  · rw [if_neg h, UInt32.toNat_sub, UInt32.toNat_add]
    have := UInt32.lt_iff_toNat_lt.not.mp h
    have h256 : (256 : UInt32).toNat = 256 := rfl
    omega

theorem toNat_shiftLeft_le {x : UInt32} (hs : s.toNat ≤ 15) (hx : x.toNat ≤ 256) :
    (x <<< s).toUInt64.toNat = x.toNat * 2 ^ s.toNat := by
  have hpow : 2 ^ s.toNat ≤ 2 ^ 15 := Nat.pow_le_pow_right (by decide) hs
  have hfits : x.toNat * 2 ^ s.toNat < 2 ^ 32 := by
    calc x.toNat * 2 ^ s.toNat ≤ 256 * 2 ^ 15 := Nat.mul_le_mul hx hpow
      _ < 2 ^ 32 := by decide
  rw [UInt32.toNat_toUInt64, UInt32.toNat_shiftLeft, Nat.mod_eq_of_lt (by omega : s.toNat < 32),
    Nat.shiftLeft_eq, Nat.mod_eq_of_lt hfits]

theorem div_mod_next {P : ℕ} (hP : 0 < P) (hlt : m < m') (hle : m' - m ≤ P) :
    m' / P = m / P ∧ m % P < m' % P ∨ m' / P = m / P + 1 ∧ m' % P ≤ m % P := by
  have hm := Nat.div_add_mod m P
  have hmod := Nat.mod_lt m hP
  obtain ⟨d, rfl⟩ := Nat.exists_eq_add_of_lt hlt
  rcases Nat.lt_or_ge (m % P + (d + 1)) P with hin | hout
  · have heq : m + d + 1 = P * (m / P) + (m % P + (d + 1)) := by omega
    refine .inl ⟨?_, ?_⟩
    · rw [heq, Nat.mul_add_div hP, Nat.div_eq_of_lt hin, Nat.add_zero]
    · rw [heq, Nat.mul_add_mod, Nat.mod_eq_of_lt hin]
      omega
  · have heq : m + d + 1 = P * (m / P + 1) + (m % P + (d + 1) - P) := by
      rw [Nat.mul_add_one]
      omega
    have hrem : m % P + (d + 1) - P < P := by omega
    refine .inr ⟨?_, ?_⟩
    · rw [heq, Nat.mul_add_div hP, Nat.div_eq_of_lt hrem, Nat.add_zero]
    · rw [heq, Nat.mul_add_mod, Nat.mod_eq_of_lt hrem]
      omega

theorem borrow_high {P Q : ℕ} (hPQ : P * Q = 256) (hlt : m < m') (hle : m' - m ≤ P) :
    (m' % 256 ≤ m' % 256 / P * P + m % P →
        (2 ^ 32 - P + (m' % 256 / P * P + m % P)) % 2 ^ 32 % 256 = m % 256) ∧
      (¬ m' % 256 ≤ m' % 256 / P * P + m % P → m' % 256 / P * P + m % P = m % 256) := by
  have hP : 0 < P := Nat.pos_of_ne_zero (by rintro rfl; simp at hPQ)
  have hQ : 0 < Q := Nat.pos_of_ne_zero (by rintro rfl; simp at hPQ)
  have hsplit (x : ℕ) : x % 256 = P * (x / P % Q) + x % P := by
    rw [← hPQ, Nat.mod_mul, Nat.add_comm]
  have hhigh : m' % 256 / P * P = P * (m' / P % Q) := by
    rw [← hPQ, Nat.mod_mul_right_div_self, Nat.mul_comm]
  have hmod := Nat.mod_lt m hP
  have hq := Nat.mod_lt (m / P) hQ
  rw [hhigh, hsplit m, hsplit m']
  rcases div_mod_next hP hlt hle with ⟨hdiv, hmore⟩ | ⟨hdiv, hless⟩
  · rw [hdiv]
    omega
  · have hnext : m' / P % Q = (m / P % Q + 1) % Q := by rw [hdiv, Nat.mod_add_mod]
    rw [hnext]
    refine ⟨fun _ => ?_, by omega⟩
    rcases Nat.lt_or_ge (m / P % Q + 1) Q with hin | hwrap
    · have hfits : P * (m / P % Q) + P ≤ 256 := by
        rw [← Nat.mul_add_one, ← hPQ]
        exact Nat.mul_le_mul_left P hin.le
      rw [Nat.mod_eq_of_lt hin, Nat.mul_add_one]
      omega
    · have hfull : m / P % Q + 1 = Q := by omega
      have htop : P * (m / P % Q) + P = 256 := by rw [← Nat.mul_add_one, hfull, hPQ]
      rw [hfull, Nat.mod_self, Nat.mul_zero]
      omega

theorem toNat_and_255 (x : UInt32) : (x &&& 0xff).toNat = x.toNat % 256 := by
  rw [UInt32.toNat_and]
  exact Nat.and_two_pow_sub_one_eq_mod x.toNat 8

theorem toNat_fixupLastMtc {lastMtc : UInt32} (hlow : 8 < s.toNat) (hs : s.toNat ≤ 15)
    (hlast : lastMtc.toNat = m % 2 ^ (16 - s.toNat)) (hmtc : mtc.toNat = m' % 256) (hlt : m < m')
    (hle : m' - m ≤ 2 ^ (16 - s.toNat)) : (fixupLastMtc mtc s lastMtc).toNat = m % 256 := by
  obtain ⟨k, hk⟩ : ∃ k, 16 - s.toNat = k := ⟨_, rfl⟩
  rw [hk] at hlast hle
  have hk7 : k ≤ 7 := by omega
  have hpow : 2 ^ k ≤ 2 ^ 7 := Nat.pow_le_pow_right (by decide) hk7
  have hone : 1 ≤ 2 ^ k := Nat.one_le_two_pow
  have hcount : (16 - s : UInt32).toNat = k := by
    rw [UInt32.toNat_sub_of_le _ _ (UInt32.le_iff_toNat_le.mpr (by change s.toNat ≤ 16; omega))]
    exact hk
  have hbit : (1 <<< (16 - s) : UInt32).toNat = 2 ^ k := by
    rw [UInt32.toNat_shiftLeft, hcount, Nat.mod_eq_of_lt (by omega : k < 32), UInt32.toNat_one,
      Nat.one_shiftLeft, Nat.mod_eq_of_lt (by omega)]
  have hmask : (~~~((1 <<< (16 - s) : UInt32) - 1)).toNat = 2 ^ 32 - 2 ^ k := by
    rw [UInt32.toNat_not, UInt32.toNat_sub_of_le, hbit, UInt32.toNat_one]
    · change 2 ^ 32 - 1 - (2 ^ k - 1) = _
      omega
    · rw [UInt32.le_iff_toNat_le, hbit]
      exact hone
  have hpatched : (lastMtc ||| (mtc &&& ~~~((1 <<< (16 - s) : UInt32) - 1))).toNat =
      mtc.toNat / 2 ^ k * 2 ^ k + m % 2 ^ k := by
    rw [UInt32.toNat_or, UInt32.toNat_and, hmask,
      or_and_high mtc.toNat_lt (by omega) (hlast ▸ Nat.mod_lt m hone), hlast]
  have hborrows := borrow_high (P := 2 ^ k) (Q := 2 ^ (8 - k))
    (by rw [← Nat.pow_add, Nat.add_sub_of_le (by omega)]) hlt hle
  rw [← hmtc] at hborrows
  rw [fixupLastMtc]
  split_ifs with hborrow
  · rw [toNat_and_255, UInt32.toNat_sub, hbit, hpatched]
    rw [UInt32.le_iff_toNat_le, hpatched] at hborrow
    exact hborrows.1 hborrow
  · rw [hpatched]
    rw [UInt32.le_iff_toNat_le, hpatched] at hborrow
    exact hborrows.2 hborrow

structure CtcCount.StandsAt (c : CtcCount) (s m₀ m : ℕ) : Prop where
  since : m₀ ≤ m
  haveTma : c.haveTma = true
  ctcDelta : c.ctcDelta.toNat = (m - m₀) * 2 ^ s % 2 ^ 64
  lastMtc : c.lastMtc.toNat =
    if 8 < s ∧ c.fixupLastMtc = true then m % 2 ^ (16 - s) else m % 256
  fixup : 8 < s → c.fixupLastMtc = true → m = m₀

theorem CtcCount.standsAt_ofTma {shift : UInt32} {ctc : UInt64} {c₀ : ℕ}
    (hs : shift.toNat ≤ 15) (hctc : ctc.toNat = c₀ % 2 ^ 16) :
    (ofTma shift ctc).StandsAt shift.toNat (c₀ >>> shift.toNat) (c₀ >>> shift.toNat) := by
  have hlast : ((ctc.toUInt32 >>> shift) &&& 0xff).toNat =
      c₀ % 2 ^ 16 / 2 ^ shift.toNat % 256 := by
    rw [toNat_and_255, UInt32.toNat_shiftRight, Nat.shiftRight_eq_div_pow,
      Nat.mod_eq_of_lt (by omega : shift.toNat < 32), UInt64.toNat_toUInt32, hctc,
      Nat.mod_eq_of_lt (by omega : c₀ % 2 ^ 16 < 2 ^ 32)]
  refine ⟨le_rfl, rfl, by simp [ofTma], ?_, fun _ _ => rfl⟩
  change ((ctc.toUInt32 >>> shift) &&& 0xff).toNat = if 8 < shift.toNat ∧ true = true then _ else _
  rw [hlast, Nat.shiftRight_eq_div_pow]
  generalize shift.toNat = s at hs
  have hbits : c₀ % 2 ^ 16 / 2 ^ s = c₀ / 2 ^ s % 2 ^ (16 - s) := by
    rw [← Nat.mod_mul_right_div_self, ← Nat.pow_add, Nat.add_sub_cancel' (by omega : s ≤ 16)]
  rw [hbits]
  by_cases hlow : 8 < s
  · have hfew : 2 ^ (16 - s) ≤ 2 ^ 8 := Nat.pow_le_pow_right (by decide) (by omega)
    rw [if_pos ⟨hlow, rfl⟩]
    exact Nat.mod_eq_of_lt ((Nat.mod_lt _ (Nat.two_pow_pos _)).trans_le hfew)
  · rw [if_neg fun hfix => hlow hfix.1]
    exact Nat.mod_mod_of_dvd _ (Nat.pow_dvd_pow 2 (by omega : 8 ≤ 16 - s))

theorem CtcCount.StandsAt.next {c : CtcCount} {m₀ : ℕ} (h : c.StandsAt s.toNat m₀ m)
    (hs : s.toNat ≤ 15) (hmtc : mtc.toNat = m' % 256) (hlt : m < m') (hle : m' - m ≤ 256)
    (hfirst : m = m₀ → m' - m ≤ 2 ^ (16 - s.toNat)) : (c.next s mtc).StandsAt s.toNat m₀ m' := by
  have hshift : 8 < s ↔ 8 < s.toNat := UInt32.lt_iff_toNat_lt
  have hbefore : (c.before s mtc).toNat = m % 256 := by
    have hlast := h.lastMtc
    unfold CtcCount.before
    by_cases hfix : 8 < s ∧ c.fixupLastMtc = true
    · have hfix' : 8 < s.toNat ∧ c.fixupLastMtc = true := ⟨hshift.mp hfix.1, hfix.2⟩
      rw [if_pos hfix'] at hlast
      rw [if_pos hfix]
      exact toNat_fixupLastMtc hfix'.1 hs hlast hmtc hlt (hfirst (h.fixup hfix'.1 hfix'.2))
    · rw [hshift] at hfix
      rw [if_neg hfix] at hlast
      rw [if_neg (by rwa [hshift])]
      exact hlast
  have hdelta := toNat_mtcDelta hbefore hmtc hlt hle
  have hticks : (mtcDelta mtc (c.before s mtc) <<< s).toUInt64.toNat = (m' - m) * 2 ^ s.toNat := by
    rw [toNat_shiftLeft_le hs (hdelta ▸ hle), hdelta]
  have hsum : (m - m₀) * 2 ^ s.toNat + (m' - m) * 2 ^ s.toNat = (m' - m₀) * 2 ^ s.toNat := by
    rw [← Nat.add_mul]
    congr 1
    have := h.since
    omega
  have hoff : ¬ (8 < s.toNat ∧ (c.fixupLastMtc && !(8 < s : Bool)) = true) := by
    rintro ⟨hlt8, hon⟩
    simp [hshift.mpr hlt8] at hon
  rw [CtcCount.next, if_neg (not_not.mpr h.haveTma)]
  refine ⟨h.since.trans hlt.le, h.haveTma, ?_, ?_, fun hlt8 hon => absurd ⟨hlt8, hon⟩ hoff⟩
  · rw [UInt64.toNat_add, h.ctcDelta, hticks, Nat.mod_add_mod, hsum]
  · rw [if_neg hoff]
    exact hmtc

def TicksFrom (s m₀ : ℕ) : List ℕ → Prop
  | [] => True
  | m :: ms => m₀ < m ∧ m - m₀ ≤ min 256 (2 ^ (16 - s)) ∧
      (m :: ms).IsChain fun a b => a < b ∧ b - a ≤ 256

theorem CtcCount.standsAt_foldl {m₀ : ℕ} (hs : s.toNat ≤ 15) {mtcs : List UInt64} {ms : List ℕ}
    {c : CtcCount} (hstands : c.StandsAt s.toNat m₀ m)
    (hmtcs : mtcs.map UInt64.toNat = ms.map (· % 256))
    (hchain : (m :: ms).IsChain fun a b => a < b ∧ b - a ≤ 256)
    (hfirst : ∀ m' ∈ ms.head?, m = m₀ → m' - m ≤ 2 ^ (16 - s.toNat)) :
    (mtcs.foldl (fun c mtc => c.next s mtc.toUInt32) c).StandsAt s.toNat m₀ (ms.getLastD m) := by
  induction mtcs generalizing ms c m with
  | nil =>
    obtain rfl : ms = [] := by simpa using hmtcs.symm
    exact hstands
  | cons mtc mtcs ih =>
    obtain ⟨m', ms, rfl⟩ : ∃ m' ms', ms = m' :: ms' := by
      cases ms with
      | nil => exact absurd hmtcs (by simp)
      | cons m' ms' => exact ⟨m', ms', rfl⟩
    rw [List.map_cons, List.map_cons, List.cons.injEq] at hmtcs
    obtain ⟨⟨hlt, hle⟩, hchain⟩ := List.isChain_cons_cons.mp hchain
    have hpayload : mtc.toUInt32.toNat = m' % 256 := by
      rw [UInt64.toNat_toUInt32, hmtcs.1]
      omega
    have hnext := hstands.next hs hpayload hlt hle (hfirst m' rfl)
    have hsince := hstands.since
    rw [List.foldl_cons, List.getLastD_cons]
    exact ih hnext hmtcs.2 hchain fun _ _ h0 => by omega

theorem CtcCount.standsAt_ticks {tma : UInt64} {mtcs : List UInt64} {c₀ : ℕ} {ms : List ℕ}
    (hs : s.toNat ≤ 15) (htma : tma.toNat = c₀ % 2 ^ 16)
    (hmtcs : mtcs.map UInt64.toNat = ms.map (· % 256))
    (hticks : TicksFrom s.toNat (c₀ >>> s.toNat) ms) :
    (mtcs.foldl (fun c mtc => c.next s mtc.toUInt32) (ofTma s tma)).StandsAt s.toNat
      (c₀ >>> s.toNat) (ms.getLastD (c₀ >>> s.toNat)) := by
  refine standsAt_foldl hs (standsAt_ofTma hs htma) hmtcs ?_ ?_
  · cases ms with
    | nil => exact List.isChain_singleton _
    | cons m ms =>
      obtain ⟨hlt, hle, hchain⟩ := hticks
      exact List.isChain_cons_cons.mpr ⟨⟨hlt, hle.trans (Nat.min_le_left _ _)⟩, hchain⟩
  · cases ms with
    | nil => exact fun _ h => absurd h (by simp)
    | cons m ms =>
      intro m' hm' _
      obtain rfl : m = m' := by simpa using hm'
      exact hticks.2.1.trans (Nat.min_le_right _ _)

theorem toNat_multdiv (x : UInt64) (n : UInt32) {d : UInt32} (hd : d ≠ 0) :
    (multdiv x n d).toNat = x.toNat * n.toNat / d.toNat % 2 ^ 64 := by
  have hpos : 0 < d.toNat := Nat.pos_of_ne_zero fun h0 => hd (UInt32.toNat_inj.mp h0)
  have hsmall : x.toNat % d.toNat * n.toNat < 2 ^ 64 := by
    calc x.toNat % d.toNat * n.toNat ≤ 2 ^ 32 * n.toNat :=
          Nat.mul_le_mul_right _ ((Nat.mod_lt _ hpos).le.trans d.toNat_lt.le)
      _ < 2 ^ 64 := by have := n.toNat_lt; omega
  rw [multdiv, if_neg hd, UInt64.toNat_add, UInt64.toNat_mul, UInt64.toNat_div, UInt64.toNat_div,
    UInt64.toNat_mul, UInt64.toNat_mod, UInt32.toNat_toUInt64, UInt32.toNat_toUInt64,
    Nat.mod_eq_of_lt hsmall, Nat.mod_add_mod, mul_div_split x.toNat _ hpos]

/-- The ratio is a whole number, and `intel_pt_decoder_new` has found it. -/
structure Timing.Whole (t : Timing) : Prop where
  ratioN : t.tscCtcRatioN ≠ 0
  ratioD : t.tscCtcRatioD ≠ 0
  divides : t.tscCtcRatioD.toNat ∣ t.tscCtcRatioN.toNat
  mult : t.tscCtcMult = t.tscCtcRatioN / t.tscCtcRatioD

/-- The decoder that goes through `multdiv` all the same. -/
def Timing.general (t : Timing) : Timing := { t with tscCtcMult := 0 }

theorem Timing.whole_new (toU64 : Float → UInt64) (maxNonTurboRatio mtcPeriod : UInt32)
    {n d : UInt32} (hn : n ≠ 0) (hd : d ≠ 0) (hdvd : d.toNat ∣ n.toNat) :
    (Timing.new toU64 maxNonTurboRatio mtcPeriod n d).Whole := by
  have hmod : n % d = 0 := by
    rw [← UInt32.toNat_inj, UInt32.toNat_mod]
    exact Nat.mod_eq_zero_of_dvd hdvd
  constructor
  · exact hn
  · simpa only [Timing.new, if_neg hn] using hd
  · simpa only [Timing.new, if_neg hn] using hdvd
  · simp only [Timing.new, if_neg hn, hd, hmod, ne_eq, not_false_eq_true, and_self, if_true]

namespace Timing.Whole

variable {t : Timing}

theorem toNat_mult (h : t.Whole) :
    t.tscCtcMult.toNat = t.tscCtcRatioN.toNat / t.tscCtcRatioD.toNat := by
  rw [h.mult, UInt32.toNat_div]

theorem mult_ne_zero (h : t.Whole) : t.tscCtcMult ≠ 0 := by
  have hn : t.tscCtcRatioN.toNat ≠ 0 := fun h0 => h.ratioN (UInt32.toNat_inj.mp h0)
  intro h0
  have hzero := h.toNat_mult
  rw [h0, UInt32.toNat_zero, eq_comm, Nat.div_eq_zero_iff] at hzero
  have hle := Nat.le_of_dvd (Nat.pos_of_ne_zero hn) h.divides
  have hd : t.tscCtcRatioD.toNat ≠ 0 := fun h0 => h.ratioD (UInt32.toNat_inj.mp h0)
  omega

theorem toNat_multdiv (h : t.Whole) (x : UInt64) :
    (multdiv x t.tscCtcRatioN t.tscCtcRatioD).toNat =
      x.toNat * t.tscCtcMult.toNat % 2 ^ 64 := by
  rw [Decode.toNat_multdiv x _ h.ratioD, h.toNat_mult, Nat.mul_div_assoc _ h.divides]

theorem ctcTicks_general (h : t.Whole) (ctc : UInt64) :
    t.general.ctcTicks ctc = t.ctcTicks ctc := by
  rw [ctcTicks, ctcTicks, if_pos h.mult_ne_zero, if_neg (by simp [general]), ← UInt64.toNat_inj,
    UInt64.toNat_mul, UInt32.toNat_toUInt64]
  exact h.toNat_multdiv ctc

theorem remTicks_general_iff (h : t.Whole) (ctcRem : UInt32) :
    t.general.remTicks ctcRem = t.remTicks ctcRem ↔
      ctcRem.toNat * t.tscCtcMult.toNat < 2 ^ 32 := by
  have hfits : ctcRem.toNat * t.tscCtcMult.toNat < 2 ^ 64 := by
    have hlt := Nat.mul_lt_mul'' ctcRem.toNat_lt t.tscCtcMult.toNat_lt
    exact hlt
  have hgeneral : (t.general.remTicks ctcRem).toNat = ctcRem.toNat * t.tscCtcMult.toNat := by
    rw [remTicks, if_neg (by simp [general])]
    exact (h.toNat_multdiv _).trans (by rw [UInt32.toNat_toUInt64, Nat.mod_eq_of_lt hfits])
  have hfast : (t.remTicks ctcRem).toNat = ctcRem.toNat * t.tscCtcMult.toNat % 2 ^ 32 := by
    rw [remTicks, if_pos h.mult_ne_zero, UInt32.toNat_toUInt64, UInt32.toNat_mul]
  rw [← UInt64.toNat_inj, hgeneral, hfast]
  omega

end Timing.Whole

namespace SameCtc

variable {a b : Clock} {t : Timing} {rd : Reader}

theorem symm (h : SameCtc a b) : SameCtc b a :=
  ⟨h.ctc.symm, h.timestamp.symm, h.tscTimestamp.symm, h.refTimestamp.symm, h.ctcTimestamp.symm⟩

theorem trans {c : Clock} (h : SameCtc a b) (h' : SameCtc b c) : SameCtc a c :=
  ⟨h.ctc.trans h'.ctc, h.timestamp.trans h'.timestamp, h.tscTimestamp.trans h'.tscTimestamp,
    h.refTimestamp.trans h'.refTimestamp, h.ctcTimestamp.trans h'.ctcTimestamp⟩

theorem restartCyc (h : SameCtc a b) (t t' : Timing) (rd : Reader) (fromMtc : Bool) :
    SameCtc (a.restartCyc t rd fromMtc) (b.restartCyc t' rd fromMtc) :=
  ((a.restartCyc_same t rd fromMtc).trans h).trans (b.restartCyc_same t' rd fromMtc).symm

theorem haveTma (h : SameCtc a b) : a.haveTma = b.haveTma := congrArg CtcCount.haveTma h.ctc

theorem calcTscTimestamp (h : SameCtc a b) (rd : Reader) :
    SameCtc (a.calcTscTimestamp t rd) (b.calcTscTimestamp t.general rd) := by
  have hctc := h.ctc
  have hdrop : Clock.ctc { a with haveTma := false } = Clock.ctc { b with haveTma := false } := by
    rw [Clock.ctc, CtcCount.mk.injEq] at hctc
    simp only [Clock.ctc, hctc]
  simp only [Clock.calcTscTimestamp]
  apply SameCtc.restartCyc
  rw [h.refTimestamp, h.timestamp]
  split_ifs
  · exact ⟨hdrop, rfl, rfl, rfl, h.ctcTimestamp⟩
  · exact ⟨hdrop, rfl, rfl, rfl, h.ctcTimestamp⟩
  · exact ⟨hdrop, rfl, h.tscTimestamp, rfl, h.ctcTimestamp⟩

theorem calcTma (h : SameCtc a b)
    (hrem : t.general.remTicks (rd.packet.payload.toUInt32 &&& t.ctcRemMask) =
      t.remTicks (rd.packet.payload.toUInt32 &&& t.ctcRemMask)) :
    SameCtc (a.calcTma t rd) (b.calcTma t.general rd) := by
  by_cases hd : t.tscCtcRatioD = 0
  · have hd' : t.general.tscCtcRatioD = 0 := hd
    rw [Clock.calcTma, Clock.calcTma, if_pos hd, if_pos hd']
    exact h
  · have hd' : t.general.tscCtcRatioD ≠ 0 := hd
    rw [Clock.calcTma, Clock.calcTma, if_neg hd, if_neg hd']
    refine ⟨rfl, h.timestamp, h.tscTimestamp, h.refTimestamp, ?_⟩
    simp only [h.tscTimestamp]
    exact congrArg _ hrem.symm

theorem calcMtcTimestamp (h : SameCtc a b) (ht : t.Whole) (rd : Reader) :
    SameCtc (a.calcMtcTimestamp t rd) (b.calcMtcTimestamp t.general rd) := by
  refine ⟨?_, ?_, ?_, ?_, ?_⟩
  · rw [a.calcMtcTimestamp_ctc, b.calcMtcTimestamp_ctc, h.ctc]
    rfl
  · rw [a.calcMtcTimestamp_timestamp, b.calcMtcTimestamp_timestamp, h.haveTma, h.ctcTimestamp,
      h.timestamp, h.ctc, ht.ctcTicks_general]
    rfl
  · rw [(a.calcMtcTimestamp_same t rd).1, (b.calcMtcTimestamp_same t.general rd).1]
    exact h.tscTimestamp
  · rw [(a.calcMtcTimestamp_same t rd).2.1, (b.calcMtcTimestamp_same t.general rd).2.1]
    exact h.refTimestamp
  · rw [(a.calcMtcTimestamp_same t rd).2.2, (b.calcMtcTimestamp_same t.general rd).2.2]
    exact h.ctcTimestamp

end SameCtc

/-- The three fields are the same. -/
def AgreeCtc (a b : Clock) : Prop :=
  a.ctcTimestamp = b.ctcTimestamp ∧ a.ctcDelta = b.ctcDelta ∧ a.timestamp = b.timestamp

theorem SameCtc.agree (h : SameCtc a b) : AgreeCtc a b :=
  ⟨h.ctcTimestamp, congrArg CtcCount.ctcDelta h.ctc, h.timestamp⟩

def RemFits (t : Timing) (rd : Reader) : Prop :=
  rd.packet.type = .tma →
    (rd.packet.payload.toUInt32 &&& t.ctcRemMask).toNat * t.tscCtcMult.toNat < 2 ^ 32

theorem SameCtc.handle_iff {t : Timing} {rd : Reader} (h : SameCtc a b) (ht : t.Whole)
    (hty : rd.packet.type = .tsc ∨ rd.packet.type = .tma ∨ rd.packet.type = .mtc) :
    (RemFits t rd → SameCtc (a.handle t rd) (b.handle t.general rd)) ∧
      (AgreeCtc (a.handle t rd) (b.handle t.general rd) → RemFits t rd) := by
  rcases hty with hty | hty | hty
  · simp only [RemFits, Clock.handle, hty]
    exact ⟨fun _ => h.calcTscTimestamp rd, fun _ h0 => absurd h0 (by decide)⟩
  · simp only [RemFits, Clock.handle, hty, true_imp_iff]
    rw [← ht.remTicks_general_iff]
    refine ⟨fun hrem => h.calcTma hrem, fun hagree => ?_⟩
    have hctc := hagree.1
    have hd : t.general.tscCtcRatioD ≠ 0 := ht.ratioD
    rw [Clock.calcTma, Clock.calcTma, if_neg ht.ratioD, if_neg hd] at hctc
    simp only [h.tscTimestamp] at hctc
    exact (sub_right_inj.mp hctc).symm
  · simp only [RemFits, Clock.handle, hty]
    exact ⟨fun _ => h.calcMtcTimestamp ht rd, fun _ h0 => absurd h0 (by decide)⟩

/-- A whole sequence. -/
theorem SameCtc.foldl_iff {t : Timing} (ht : t.Whole) {rds : List Reader} (h : SameCtc a b)
    (hty : ∀ rd ∈ rds, rd.packet.type = .tsc ∨ rd.packet.type = .tma ∨ rd.packet.type = .mtc) :
    (∀ run, run <+: rds → AgreeCtc (run.foldl (Clock.handle t) a)
      (run.foldl (Clock.handle t.general) b)) ↔ ∀ rd ∈ rds, RemFits t rd := by
  induction rds generalizing a b with
  | nil =>
    simp only [List.prefix_nil, forall_eq, List.foldl_nil, List.not_mem_nil, false_imp_iff,
      implies_true, iff_true]
    exact h.agree
  | cons rd rds ih =>
    obtain ⟨hkeep, hfit⟩ := h.handle_iff ht (hty rd List.mem_cons_self)
    have hrest := fun rd hrd => hty rd (List.mem_cons_of_mem _ hrd)
    constructor
    · intro hall
      have hrd : RemFits t rd := hfit (hall [rd] ⟨rds, rfl⟩)
      have htail := (ih (hkeep hrd) hrest).mp fun run hrun =>
        hall (rd :: run) (List.cons_prefix_cons.mpr ⟨rfl, hrun⟩)
      exact List.forall_mem_cons.mpr ⟨hrd, htail⟩
    · intro hfits run hrun
      obtain ⟨hrd, htail⟩ := List.forall_mem_cons.mp hfits
      cases run with
      | nil => exact h.agree
      | cons rd' run =>
        obtain ⟨rfl, hrun'⟩ := List.cons_prefix_cons.mp hrun
        exact (ih (hkeep hrd) hrest).mpr htail run hrun'

/-- Multiplying with a whole ratio and going through `multdiv` agree after every packet exactly when
the products of the TMA packets fit in 32 bits; and `multdiv` is exact. -/
theorem whole_ratio_agrees_iff (toU64 : Float → UInt64) (maxNonTurboRatio mtcPeriod n d : UInt32)
    (hn : n ≠ 0) (hd : d ≠ 0) (hdvd : d.toNat ∣ n.toNat) (clk : Clock) (rds : List Reader)
    (hty : ∀ rd ∈ rds, rd.packet.type = .tsc ∨ rd.packet.type = .tma ∨ rd.packet.type = .mtc) :
    let t := Timing.new toU64 maxNonTurboRatio mtcPeriod n d
    ((∀ run, run <+: rds → AgreeCtc (run.foldl (Clock.handle t) clk)
        (run.foldl (Clock.handle t.general) clk)) ↔
      ∀ rd ∈ rds, rd.packet.type = .tma →
        (rd.packet.payload.toUInt32 &&& t.ctcRemMask).toNat * (n.toNat / d.toNat) < 2 ^ 32) ∧
      ∀ (x : UInt64) (n d : UInt32), d ≠ 0 → x.toNat * n.toNat / d.toNat < 2 ^ 64 →
        (multdiv x n d).toNat = x.toNat * n.toNat / d.toNat := by
  intro t
  have hwhole : t.Whole := Timing.whole_new toU64 maxNonTurboRatio mtcPeriod hn hd hdvd
  have hmult : t.tscCtcMult.toNat = n.toNat / d.toNat := by
    rw [hwhole.toNat_mult]
    simp only [t, Timing.new, if_neg hn]
  constructor
  · rw [SameCtc.foldl_iff hwhole ⟨rfl, rfl, rfl, rfl, rfl⟩ hty]
    simp only [RemFits, hmult]
  · intro x n d hd hfits
    rw [toNat_multdiv x n hd, Nat.mod_eq_of_lt hfits]

/-- A ratio of 84, as 168 over 2. -/
theorem ratio_84_agrees :
    let t := Timing.new (fun _ => 0) 0 3 168 2
    let rds : List Reader := [{ packet := { type := .tsc, payload := 1000000 } },
      { packet := { type := .tma, payload := 0x1235, count := 17 } },
      { packet := { type := .mtc, payload := 0x47 } }]
    AgreeCtc (rds.foldl (Clock.handle t) { timestamp := 1 })
      (rds.foldl (Clock.handle t.general) { timestamp := 1 }) := by
  intro t rds
  have hagree := (whole_ratio_agrees_iff (fun _ => 0) 0 3 168 2 (by decide) (by decide)
    (by decide) { timestamp := 1 } rds (by decide)).1
  exact hagree.mpr (by decide) rds (List.prefix_refl rds)

/-- With a ratio of `2 ^ 31` a remainder of 2 is lost in the product of 32 bits. -/
theorem whole_ratio_differs :
    let t := Timing.new (fun _ => 0) 0 2 0x80000000 1
    let tma : Reader := { packet := { type := .tma, payload := 2 } }
    let clk : Clock := { timestamp := 0x300000000, tscTimestamp := 0x300000000 }
    (clk.handle t tma).ctcTimestamp = 0x300000000 ∧
      (clk.handle t.general tma).ctcTimestamp = 0x200000000 := by
  decide +kernel

end RPerf.Decode
