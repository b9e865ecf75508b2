import Mathlib.Data.Nat.Bitwise
import RPerf.Decode.Encoder
import RPerf.Packets.Consumption
import RPerf.Lib.ByteFormat

/-!
# The two forms of TNT packets

The outcomes of branches stand behind a stop bit, in six bytes of the long form and in seven
bits of the short one.
-/

namespace RPerf.Decode

open Lib Packets

section

variable (outcomes : List Bool)

def stopped : ℕ := (BitVec.ofBoolListBE (true :: outcomes)).toNat

/-- The form of eight bytes. -/
def longTnt : List UInt8 := [0x02, 0xa3] ++ littleEndian 6 (stopped outcomes)

/-- The form of one byte, whose lowest bit is clear. -/
def shortTnt : List UInt8 := [UInt8.ofNat (2 * stopped outcomes)]

def Decoder.replay : ℕ → Decoder → List Bool
  | 0, _ => []
  | n + 1, d => decide (d.tnt.payload &&& bit63 ≠ 0) :: replay n d.useBit.shiftTnt

theorem stopped_lt : stopped outcomes < 2 ^ (outcomes.length + 1) :=
  (BitVec.ofBoolListBE (true :: outcomes)).isLt

theorem testBit_stopped (i : ℕ) :
    (stopped outcomes).testBit i =
      (decide (i < outcomes.length + 1) && (true :: outcomes).getD
        (outcomes.length - i) false) := by
  rw [stopped, BitVec.testBit_toNat, BitVec.getLsbD_ofBoolListBE]
  simp

theorem testBit_stopped_top (i : ℕ) (h : outcomes.length < i) :
    (stopped outcomes).testBit i = false := by
  rw [testBit_stopped]
  simp [show ¬ i < outcomes.length + 1 by omega]

theorem testBit_stopped_length : (stopped outcomes).testBit outcomes.length = true := by
  rw [testBit_stopped]
  simp

theorem testBit_stopped_outcome (i : ℕ) (h : i < outcomes.length) :
    (stopped outcomes).testBit (outcomes.length - 1 - i) = outcomes[i] := by
  rw [testBit_stopped, show outcomes.length - (outcomes.length - 1 - i) = i + 1 by omega]
  simp [show outcomes.length - 1 - i < outcomes.length + 1 by omega, h]

theorem and_bit_ne_zero (x y : UInt64) (s : ℕ) (hy : y.toNat = 2 ^ s) :
    x &&& y ≠ 0 ↔ x.toNat.testBit s = true := by
  rw [Ne, ← UInt64.toNat_inj, UInt64.toNat_and, hy, Nat.and_two_pow]
  cases x.toNat.testBit s <;> simp

theorem testBit_shiftLeft_one (x : UInt64) (i : ℕ) (hi : i < 64) :
    (x <<< 1).toNat.testBit i = (decide (1 ≤ i) && x.toNat.testBit (i - 1)) := by
  rw [UInt64.toNat_shiftLeft, Nat.testBit_mod_two_pow, Nat.testBit_shiftLeft]
  simp [hi]

theorem tntCount_spec (stop : UInt64) {s : ℕ} (hstop : stop.toNat = 2 ^ s) (hs : s < 64) :
    ∀ (n j : ℕ) (w : UInt64), j < n → j ≤ s → (∀ i < j, w.toNat.testBit (s - i) = false) →
      w.toNat.testBit (s - j) = true →
      (tntCount stop n w).1 = n - j ∧
        ∀ i < 64, j ≤ i → (tntCount stop n w).2.toNat.testBit i = w.toNat.testBit (i - j) := by
  intro n
  induction n with
  | zero =>
    intro j w hj
    omega
  | succ n ih =>
    intro j w hj hjs hclear hset
    cases j with
    | zero =>
      have hbit : w &&& stop ≠ 0 := (and_bit_ne_zero w stop s hstop).mpr hset
      rw [tntCount, if_pos hbit]
      exact ⟨rfl, fun i _ _ => rfl⟩
    | succ j =>
      have hbit : ¬ (w &&& stop ≠ 0) := by
        rw [and_bit_ne_zero w stop s hstop]
        simpa using hclear 0 (by omega)
      obtain ⟨hcount, hbits⟩ := ih j (w <<< 1) (by omega) (by omega)
        (fun i hi => by
          rw [testBit_shiftLeft_one _ _ (by omega), show s - i - 1 = s - (i + 1) by omega,
            hclear (i + 1) (by omega), Bool.and_false])
        (by
          rw [testBit_shiftLeft_one _ _ (by omega), show s - j - 1 = s - (j + 1) by omega, hset]
          simp [show 1 ≤ s - j by omega])
      rw [tntCount, if_neg hbit]
      refine ⟨by omega, ?_⟩
      intro i hi hle
      rw [hbits i hi (by omega), testBit_shiftLeft_one _ _ (by omega),
        show i - j - 1 = i - (j + 1) by omega]
      simp [show 1 ≤ i - j by omega]

theorem leBytes_toNat (buf : Bytes) : ∀ n k, n ≤ 8 →
    (leBytes buf k n).toNat = ofBytes (bytesAt buf k n) := by
  intro n
  induction n with
  | zero => intros; rfl
  | succ n ih =>
    intro k hn
    have hrest := ih (k + 1) (by omega)
    have hlt : ofBytes (bytesAt buf (k + 1) n) < 256 ^ 7 := by
      refine (ofBytes_lt _).trans_le ?_
      rw [length_bytesAt]
      exact Nat.pow_le_pow_right (by norm_num) (by omega)
    have hcons : ofBytes (bytesAt buf k (n + 1)) =
        (buf k).toNat + 256 * ofBytes (bytesAt buf (k + 1) n) := by
      rw [Nat.add_comm n 1, bytesAt_add]
      simp [bytesAt, ofBytes, Nat.ofDigits_cons]
    have hbyte : (buf k).toNat < 2 ^ 8 := (buf k).toNat_lt
    rw [hcons, leBytes, UInt64.toNat_or, UInt64.toNat_shiftLeft, hrest, UInt8.toNat_toUInt64]
    rw [show (8 : UInt64).toNat % 64 = 8 from rfl, Nat.shiftLeft_eq, Nat.mod_eq_of_lt (by omega),
      Nat.or_comm, ← Nat.shiftLeft_eq, ← Nat.shiftLeft_add_eq_or_of_lt hbyte, Nat.shiftLeft_eq]
    omega

theorem bytesAt_bytesOf (l r : List UInt8) : bytesAt (bytesOf (l ++ r)) 0 l.length = l := by
  apply List.ext_getElem (length_bytesAt _ _ _)
  intro i _ hi
  simp [bytesAt, bytesOf, List.getElem?_append_left hi, hi]

theorem longTnt_word (h : outcomes.length ≤ 47) (rest : List UInt8) (i : ℕ) :
    (leBytes (bytesOf (longTnt outcomes ++ rest)) 0 8).toNat.testBit (16 + i) =
      (stopped outcomes).testBit i := by
  have hlen : (longTnt outcomes).length = 8 := by simp [longTnt]
  have hlt : stopped outcomes < 256 ^ 6 :=
    (stopped_lt outcomes).trans_le (Nat.pow_le_pow_right (by norm_num) (by omega : _ ≤ 48))
  have hword : (leBytes (bytesOf (longTnt outcomes ++ rest)) 0 8).toNat =
      2 ^ 16 * stopped outcomes + 0xa302 := by
    have hread := bytesAt_bytesOf (longTnt outcomes) rest
    rw [hlen] at hread
    have hpayload := ofBytes_littleEndian 6 (stopped outcomes)
    rw [Nat.mod_eq_of_lt hlt, ofBytes] at hpayload
    rw [leBytes_toNat _ 8 0 le_rfl, hread, longTnt, ofBytes, List.map_append, List.map_cons,
      List.map_cons, List.map_nil, List.cons_append, List.cons_append, List.nil_append,
      Nat.ofDigits_cons, Nat.ofDigits_cons, hpayload]
    simp
    omega
  rw [hword, Nat.testBit_two_pow_mul_add _ (by norm_num), if_neg (by omega)]
  congr 1
  omega

/-- What both getters are to make of the outcomes. -/
structure IsTnt (p : Pkt) (outcomes : List Bool) : Prop where
  type : p.type = .tnt
  count : p.count = outcomes.length
  payload : ∀ (i : ℕ) (h : i < outcomes.length), p.payload.toNat.testBit (63 - i) = outcomes[i]

theorem getLongTnt_isTnt (h : outcomes.length ≤ 47) (h0 : outcomes ≠ []) (rest : List UInt8)
    (len : ℕ) (hlen : 8 ≤ len) (q : Pkt) :
    ∃ p, getLongTnt (bytesOf (longTnt outcomes ++ rest)) len q = (.accept 8, p) ∧
      IsTnt p outcomes := by
  set w := leBytes (bytesOf (longTnt outcomes ++ rest)) 0 8 with hw
  have hbit : ∀ i, w.toNat.testBit (16 + i) = (stopped outcomes).testBit i :=
    longTnt_word outcomes h rest
  have hpos : 0 < outcomes.length := List.length_pos_iff.mpr h0
  obtain ⟨hcount, hbits⟩ := tntCount_spec bit63 (s := 63) rfl (by omega) 47
    (47 - outcomes.length) w (by omega) (by omega)
    (fun i hi => by
      rw [show 63 - i = 16 + (47 - i) by omega, hbit]
      exact testBit_stopped_top _ _ (by omega))
    (by
      rw [show 63 - (47 - outcomes.length) = 16 + outcomes.length by omega, hbit]
      exact testBit_stopped_length outcomes)
  refine ⟨_, by rw [getLongTnt, if_neg (by omega)], rfl, ?_, ?_⟩
  · exact hcount.trans (by omega)
  · intro i hi
    rw [← hw, testBit_shiftLeft_one _ _ (by omega), hbits _ (by omega) (by omega),
      show 63 - i - 1 - (47 - outcomes.length) = 16 + (outcomes.length - 1 - i) by omega, hbit,
      testBit_stopped_outcome outcomes i hi]
    simp [show 1 ≤ 63 - i by omega]

theorem getShortTnt_isTnt (h : outcomes.length ≤ 6) (h0 : outcomes ≠ []) :
    ∃ p, getShortTnt (UInt8.ofNat (2 * stopped outcomes)) = (.accept 1, p) ∧
      IsTnt p outcomes := by
  set w := (UInt8.ofNat (2 * stopped outcomes)).toUInt64 with hw
  have hlt : stopped outcomes < 2 ^ 7 :=
    (stopped_lt outcomes).trans_le (Nat.pow_le_pow_right (by norm_num) (by omega))
  have hword : w.toNat = 2 * stopped outcomes := by
    rw [hw, UInt8.toNat_toUInt64, UInt8.toNat_ofNat', Nat.mod_eq_of_lt (by omega)]
  have hbit : ∀ i, w.toNat.testBit (i + 1) = (stopped outcomes).testBit i := by
    intro i
    rw [hword, Nat.testBit_add_one]
    simp
  have hpos : 0 < outcomes.length := List.length_pos_iff.mpr h0
  obtain ⟨hcount, hbits⟩ := tntCount_spec 0x80 (s := 7) rfl (by omega) 6
    (6 - outcomes.length) w (by omega) (by omega)
    (fun i hi => by
      rw [show 7 - i = 6 - i + 1 by omega, hbit]
      exact testBit_stopped_top _ _ (by omega))
    (by
      rw [show 7 - (6 - outcomes.length) = outcomes.length + 1 by omega, hbit]
      exact testBit_stopped_length outcomes)
  refine ⟨_, rfl, rfl, ?_, ?_⟩
  · exact hcount.trans (by omega)
  · intro i hi
    have hshift : ∀ x : UInt64, (x <<< 57).toNat.testBit (63 - i) = x.toNat.testBit (6 - i) := by
      intro x
      rw [UInt64.toNat_shiftLeft, Nat.testBit_mod_two_pow, Nat.testBit_shiftLeft,
        show (57 : UInt64).toNat % 64 = 57 from rfl, show 63 - i - 57 = 6 - i by omega]
      simp [show 63 - i < 64 by omega, show 57 ≤ 63 - i by omega]
    rw [← hw, hshift, hbits _ (by omega) (by omega),
      show 6 - i - (6 - outcomes.length) = outcomes.length - 1 - i + 1 by omega, hbit,
      testBit_stopped_outcome outcomes i hi]

end

theorem carries_of_testBit : ∀ (outcomes : List Bool) (payload : UInt64), outcomes.length ≤ 64 →
    (∀ (i : ℕ) (h : i < outcomes.length), payload.toNat.testBit (63 - i) = outcomes[i]) →
    Carries payload outcomes
  | [], _, _, _ => trivial
  | b :: outcomes, payload, hlen, hbits => by
    rw [List.length_cons] at hlen
    refine ⟨?_, carries_of_testBit outcomes _ (by omega) ?_⟩
    · rw [and_bit_ne_zero payload bit63 63 rfl]
      exact Bool.eq_iff_iff.mp (hbits 0 (by simp))
    · intro i hi
      rw [testBit_shiftLeft_one _ _ (by omega), show 63 - i - 1 = 63 - (i + 1) by omega,
        hbits (i + 1) (by simpa using hi)]
      simp [show 1 ≤ 63 - i by omega]

theorem Decoder.replay_of_carries : ∀ (outcomes : List Bool) (d : Decoder),
    Carries d.tnt.payload outcomes → d.replay outcomes.length = outcomes
  | [], _, _ => rfl
  | b :: outcomes, d, h => by
    have hbit : decide (d.tnt.payload &&& bit63 ≠ 0) = b := by
      rw [Bool.eq_iff_iff, decide_eq_true_iff]
      exact h.1
    rw [List.length_cons, replay, hbit, replay_of_carries outcomes _ h.2]

theorem IsTnt.replay {p : Pkt} {outcomes : List Bool} (h : IsTnt p outcomes)
    (hlen : outcomes.length ≤ 64) {d : Decoder} (hd : d.tnt = p) :
    d.replay d.tnt.count = outcomes := by
  have hcarries : Carries d.tnt.payload outcomes := by
    rw [hd]
    exact carries_of_testBit outcomes p.payload hlen h.payload
  have hcount : d.tnt.count = outcomes.length := by rw [hd, h.count]
  rw [hcount, Decoder.replay_of_carries outcomes d hcarries]

theorem doGetPacket_shortTnt {buf : Bytes} {len : ℕ} (hlen : len ≠ 0) (heven : buf 0 &&& 1 = 0)
    (h0 : buf 0 ≠ 0) (h2 : buf 0 ≠ 2) : doGetPacket buf len = getShortTnt (buf 0) := by
  simp only [doGetPacket, if_neg hlen, if_pos heven, if_neg h0, if_neg h2]

theorem doGetPacket_longTnt {buf : Bytes} {len : ℕ} (hlen : 2 ≤ len) (h0 : buf 0 = 2)
    (h1 : buf 1 = 0xa3) : doGetPacket buf len = getLongTnt buf len {} := by
  have hext : ¬ (buf 1 &&& 0x1f = 0x12) := by
    rw [h1]
    decide
  rw [doGetPacket, if_neg (by omega), h0, if_pos (by decide), if_neg (by decide), if_pos rfl,
    getExt, if_neg (by omega), if_neg hext, getExtSwitch, if_pos h1]

theorem shortTnt_byte (outcomes : List Bool) (h : outcomes.length ≤ 6) (h0 : outcomes ≠ []) :
    let byte := UInt8.ofNat (2 * stopped outcomes)
    byte &&& 1 = 0 ∧ byte ≠ 0 ∧ byte ≠ 2 := by
  intro byte
  have hpos : 0 < outcomes.length := List.length_pos_iff.mpr h0
  have hlt : stopped outcomes < 2 ^ 7 :=
    (stopped_lt outcomes).trans_le (Nat.pow_le_pow_right (by norm_num) (by omega))
  have hge : 2 ^ outcomes.length ≤ stopped outcomes :=
    Nat.ge_two_pow_of_testBit (testBit_stopped_length outcomes)
  have htwo : 2 ^ 1 ≤ 2 ^ outcomes.length := Nat.pow_le_pow_right (by norm_num) hpos
  have hbyte : byte.toNat = 2 * stopped outcomes := by
    rw [UInt8.toNat_ofNat', Nat.mod_eq_of_lt (by omega)]
  refine ⟨?_, ?_, ?_⟩
  · rw [← UInt8.toNat_inj, UInt8.toNat_and, hbyte]
    simp [Nat.and_one_is_mod]
  · intro heq
    rw [heq] at hbyte
    simp at hbyte
    omega
  · intro heq
    rw [heq] at hbyte
    simp at hbyte
    omega

/-- Both forms of a list of outcomes come out of `intel_pt_get_packet` as a TNT packet with that
many bits and the outcomes on top, and the walk takes exactly these outcomes from it, whatever
stands behind the packet. -/
theorem tnt_forms_agree (outcomes : List Bool) (h0 : 1 ≤ outcomes.length) (rest : List UInt8) :
    (outcomes.length ≤ 47 →
      let buf := longTnt outcomes ++ rest
      ∃ n p, getPacket (bytesOf buf) buf.length = (.accept n, p) ∧ IsTnt p outcomes ∧
        ∀ d : Decoder, d.tnt = p → d.replay d.tnt.count = outcomes) ∧
    (outcomes.length ≤ 6 →
      let buf := shortTnt outcomes ++ rest
      ∃ n p, getPacket (bytesOf buf) buf.length = (.accept n, p) ∧ IsTnt p outcomes ∧
        ∀ d : Decoder, d.tnt = p → d.replay d.tnt.count = outcomes) := by
  have hne : outcomes ≠ [] := List.length_pos_iff.mp h0
  constructor
  · intro h buf
    have hlen : 8 ≤ buf.length := by simp [buf, longTnt]
    obtain ⟨p, hp, htnt⟩ := getLongTnt_isTnt outcomes h hne rest buf.length hlen {}
    have hdo : doGetPacket (bytesOf buf) buf.length = _ :=
      doGetPacket_longTnt (by omega) rfl rfl
    refine ⟨_, p, by rw [getPacket_eq, hdo, hp], htnt, fun d hd => htnt.replay (by omega) hd⟩
  · intro h buf
    obtain ⟨heven, hzero, htwo⟩ := shortTnt_byte outcomes h hne
    obtain ⟨p, hp, htnt⟩ := getShortTnt_isTnt outcomes h hne
    have hdo : doGetPacket (bytesOf buf) buf.length = _ :=
      doGetPacket_shortTnt (by simp [buf, shortTnt]) heven hzero htwo
    have hbyte : bytesOf buf 0 = UInt8.ofNat (2 * stopped outcomes) := rfl
    rw [hbyte, hp] at hdo
    exact ⟨_, p, by rw [getPacket_eq, hdo], htnt, fun d hd => htnt.replay (by omega) hd⟩

/-- Three branches, of which the second one is not taken. -/
theorem tnt_forms_agree_three :
    longTnt [true, false, true] = [0x02, 0xa3, 0x0d, 0, 0, 0, 0, 0] ∧
      shortTnt [true, false, true] = [0x1a] ∧
      ∃ n p, getPacket (bytesOf [0x1a]) 1 = (.accept n, p) ∧ IsTnt p [true, false, true] := by
  obtain ⟨n, p, hp, htnt, _⟩ := (tnt_forms_agree [true, false, true] (by decide) []).2 (by decide)
  exact ⟨by decide, by decide, n, p, hp, htnt⟩

end RPerf.Decode
