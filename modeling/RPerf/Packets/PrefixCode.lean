import RPerf.Packets.Format

/-!
# Packets form a prefix code

Each getter is a prefix code from the header bytes its caller has checked, by the closure
lemmas of `Lib.PrefixCodes`; the whole grammar is one from the first byte on, with words of
at most sixteen bytes.
-/

namespace RPerf.Packets

open Lib

theorem leBytes_congr {a b : Bytes} {m : ℕ} (h : Agree m a b) :
    ∀ n k, k + n ≤ m → leBytes a k n = leBytes b k n := by
  intro n
  induction n with
  | zero => intros; rfl
  | succ n ih =>
    intro k hk
    simp only [leBytes]
    rw [h k (by omega), ih (k + 1) (by omega)]

variable (p : Pkt)

theorem getLongTnt_prefixCode : PrefixCode 2 16 fun a len => getLongTnt a len p := by
  apply PrefixCode.fixed (by omega) (by omega) p
  intro a b hag
  simp only [leBytes_congr hag 8 0 (by omega)]

theorem getPip_prefixCode : PrefixCode 2 16 fun a len => getPip a len p := by
  apply PrefixCode.fixed (by omega) (by omega) p
  intro a b hag
  simp only [leBytes_congr hag 6 2 (by omega)]

theorem field_prefixCode {k size n : ℕ} (hk : k ≤ size) (hmax : size ≤ 16) (at_ : ℕ)
    (hn : at_ + n ≤ size) (p : Pkt) (f : UInt64 → Pkt) :
    PrefixCode k 16 fun a len =>
      if len < size then (Scan.more, p) else (.accept size, f (leBytes a at_ n)) := by
  apply PrefixCode.fixed hk hmax p
  intro a b hag
  simp only [leBytes_congr hag n at_ hn]

theorem getPsb_prefixCode : PrefixCode 2 16 fun a len => getPsb a len p := by
  apply PrefixCode.guard (by omega) p
  apply PrefixCode.ite
  · intro a b hag
    have hall : ∀ j ∈ List.range 7,
        decide (a (2 * j + 2) = 2 ∧ a (2 * j + 3) = 0x82) =
          decide (b (2 * j + 2) = 2 ∧ b (2 * j + 3) = 0x82) := by
      intro j hj
      have hj := List.mem_range.mp hj
      rw [hag (2 * j + 2) (by omega), hag (2 * j + 3) (by omega)]
    rw [List.all_eq_true, List.all_eq_true]
    exact forall₂_congr fun j hj => by rw [hall j hj]
  · exact PrefixCode.done le_rfl _ fun _ _ _ => rfl
  · exact PrefixCode.reject _

theorem getTma_prefixCode : PrefixCode 2 16 fun a len => getTma a len p := by
  apply PrefixCode.fixed (by omega) (by omega) p
  intro a b hag
  simp only [leBytes_congr hag 2 2 (by omega), hag 5 (by omega), hag 6 (by omega)]

theorem get3byte_prefixCode : PrefixCode 2 16 fun a len => get3byte a len p := by
  apply PrefixCode.guard (by omega) p
  apply PrefixCode.ite
  · intro a b hag
    rw [hag 2 (by omega)]
  · exact field_prefixCode (by omega) (by omega) 3 (by omega) p _
  · exact PrefixCode.reject _

theorem getPtwrite_prefixCode : PrefixCode 2 16 fun a len => getPtwrite a len p := by
  apply PrefixCode.select (fun a => a 1) (fun a b hag => hag 1 (by omega))
    (fun byte a len => ptwriteOf byte a len p)
  intro byte
  unfold ptwriteOf
  by_cases h0 : byte.toNat >>> 5 &&& 3 = 0
  · simp only [if_pos h0]
    exact field_prefixCode (by omega) (by omega) 2 (by omega) _ _
  · by_cases h1 : byte.toNat >>> 5 &&& 3 = 1
    · simp only [if_neg h0, if_pos h1]
      exact field_prefixCode (by omega) (by omega) 2 (by omega) _ _
    · simp only [if_neg h0, if_neg h1]
      exact PrefixCode.reject _

theorem getExtSwitch_prefixCode : PrefixCode 2 16 fun a len => getExtSwitch a len p := by
  have hbyte : ∀ (v : UInt8) (a b : Bytes), Agree 2 a b → (a 1 = v ↔ b 1 = v) := by
    intro v a b hag
    rw [hag 1 (by omega)]
  have hdone : ∀ q : Pkt, PrefixCode 2 16 fun (_ : Bytes) _ => (Scan.accept 2, q) :=
    fun q => PrefixCode.done (by omega) (fun _ => q) fun _ _ _ => rfl
  unfold getExtSwitch
  refine .ite _ (hbyte _) (getLongTnt_prefixCode p) ?_
  refine .ite _ (hbyte _) (getPip_prefixCode p) ?_
  refine .ite _ (hbyte _) (hdone _) ?_
  refine .ite _ (hbyte _) (field_prefixCode (by omega) (by omega) 2 (by omega) p _) ?_
  refine .ite _ (hbyte _) (field_prefixCode (by omega) (by omega) 2 (by omega) p _) ?_
  refine .ite _ (hbyte _) (hdone _) ?_
  refine .ite _ (hbyte _) (getPsb_prefixCode p) ?_
  refine .ite _ (hbyte _) (hdone _) ?_
  refine .ite _ (hbyte _) (getTma_prefixCode p) ?_
  refine .ite _ (hbyte _) (get3byte_prefixCode p) ?_
  refine .ite _ (hbyte _) (hdone _) ?_
  refine .ite _ (hbyte _) (hdone _) ?_
  refine .ite _ (hbyte _) (field_prefixCode (by omega) (by omega) 2 (by omega) p _) ?_
  refine .ite _ (hbyte _) (field_prefixCode (by omega) (by omega) 2 (by omega) p _) ?_
  refine .ite _ (hbyte _) (field_prefixCode (by omega) (by omega) 2 (by omega) p _) ?_
  exact .reject _

theorem getExt_prefixCode : PrefixCode 1 16 fun a len => getExt a len p := by
  apply PrefixCode.guard (by omega) p
  refine .ite _ ?_ (getPtwrite_prefixCode p) (getExtSwitch_prefixCode p)
  intro a b hag
  rw [hag 1 (by omega)]

theorem getCycLoop_reads (a : Bytes) (len n : ℕ) (v : UInt64) :
    ∀ fuel offs byte payload, 1 ≤ offs → offs ≤ 10 → offs ≤ len →
      getCycLoop a len fuel offs byte payload = (.accept n, v) →
      offs ≤ n ∧ n ≤ 10 ∧ n ≤ len ∧
      (∀ b len', n ≤ len' → Agree n b a →
        getCycLoop b len' fuel offs byte payload = (.accept n, v)) ∧
      (∀ b len', offs ≤ len' → len' < n → Agree len' b a →
        (getCycLoop b len' fuel offs byte payload).1 = .more) := by
  intro fuel
  induction fuel with
  | zero =>
    intro offs byte payload _ _ _ he
    simp [getCycLoop] at he
  | succ fuel ih =>
    intro offs byte payload h1 h10 hlen he
    rw [getCycLoop] at he
    split_ifs at he with hbit h9 hmore
    · simp only [Prod.mk.injEq, Scan.accept.injEq] at he
      obtain ⟨rfl, rfl⟩ := he
      refine ⟨le_rfl, h10, hlen, ?_, ?_⟩
      · intro b len' _ _
        rw [getCycLoop, if_pos hbit]
      · intro b len' _ _ _
        omega
    · simp at he
    · simp at he
    · obtain ⟨hn, hn10, hnlen, hext, hcut⟩ := ih _ _ _ (by omega) (by omega) (by omega) he
      refine ⟨by omega, hn10, hnlen, ?_, ?_⟩
      · intro b len' hle hag
        rw [getCycLoop, if_neg hbit, if_neg h9, if_neg (by omega), hag offs (by omega)]
        exact hext b len' hle hag
      · intro b len' hle hlt hag
        rw [getCycLoop, if_neg hbit, if_neg h9]
        by_cases hmore' : len' - 1 < offs
        · rw [if_pos hmore']
        · rw [if_neg hmore', hag offs (by omega)]
          exact hcut b len' (by omega) hlt hag

theorem getCycLoop_congr {a b : Bytes} {len : ℕ} (hlen : 1 ≤ len) (h : Agree len a b) :
    ∀ fuel offs byte payload,
      getCycLoop a len fuel offs byte payload = getCycLoop b len fuel offs byte payload := by
  intro fuel
  induction fuel with
  | zero => intros; rfl
  | succ fuel ih =>
    intro offs byte payload
    rw [getCycLoop, getCycLoop]
    split_ifs with hbit hnine hmore
    · rfl
    · rfl
    · rfl
    · rw [h offs (by omega), ih]

theorem getCyc_prefixCode (byte : UInt8) (p : Pkt) :
    PrefixCode 1 16 fun a len => getCyc byte a len p := by
  constructor
  · intro a b len hlen hag
    simp only [getCyc, getCycLoop_congr hlen hag]
  intro a len n v hlen he
  change getCyc byte a len p = _ at he
  unfold getCyc at he
  split at he
  case h_2 ret payload hne heq =>
    cases ret <;> simp_all
  case h_1 m payload heq =>
    simp only [Prod.mk.injEq, Scan.accept.injEq] at he
    obtain ⟨rfl, rfl⟩ := he
    obtain ⟨h1, h10, hle, hext, hcut⟩ :=
      getCycLoop_reads a len m payload 10 1 _ _ le_rfl (by omega) hlen heq
    refine ⟨hle, h1, by omega, ?_, ?_⟩
    · intro b len' hle' hag
      simp only [getCyc, hext b len' hle' hag]
    · intro b len' hk hlt hag
      have hmore := hcut b len' hk hlt hag
      unfold getCyc
      split
      case h_1 m' payload' heq' =>
        rw [heq'] at hmore
        cases hmore
      case h_2 ret payload' _ heq' =>
        rw [heq'] at hmore
        exact hmore

theorem getIp_prefixCode (type : PktType) (byte : UInt8) (p : Pkt) :
    PrefixCode 1 16 fun a len => getIp type byte a len p := by
  unfold getIp
  simp only []
  split
  · exact .reject _
  · next n hn =>
    have hle : n ≤ 8 := by
      unfold ipLen at hn
      split at hn <;> simp_all <;> omega
    exact field_prefixCode (by omega) (by omega) 1 (by omega) _ _

theorem getMode_prefixCode : PrefixCode 1 16 fun a len => getMode a len p := by
  apply PrefixCode.guard (by omega) p
  have htest : ∀ (f : UInt8 → Prop) (a b : Bytes), Agree 2 a b → (f (a 1) ↔ f (b 1)) := by
    intro f a b hag
    rw [hag 1 (by omega)]
  have hdone : ∀ q : Pkt, PrefixCode 2 16 fun (_ : Bytes) _ => (Scan.accept 2, q) :=
    fun q => PrefixCode.done (by omega) (fun _ => q) fun _ _ _ => rfl
  refine .ite _ (htest (· >>> 5 = 0)) ?_ ?_
  · refine .ite _ (htest (· &&& 3 = 0)) (hdone _) ?_
    refine .ite _ (htest (· &&& 3 = 1)) (hdone _) ?_
    exact .ite _ (htest (· &&& 3 = 2)) (hdone _) (.reject _)
  · refine .ite _ (htest (· >>> 5 = 1)) ?_ (.reject _)
    refine .ite _ (htest (· &&& 3 = 3)) (.reject _) ?_
    refine PrefixCode.done (by omega) _ ?_
    intro a b hag
    rw [hag 1 (by omega)]

theorem getOddSwitch_prefixCode (byte : UInt8) (p : Pkt) :
    PrefixCode 1 16 fun a len => getOddSwitch byte a len p := by
  unfold getOddSwitch
  split_ifs
  · exact getIp_prefixCode _ byte p
  · exact getIp_prefixCode _ byte p
  · exact getIp_prefixCode _ byte p
  · exact getIp_prefixCode _ byte p
  · exact getMode_prefixCode p
  · exact field_prefixCode (by omega) (by omega) 1 (by omega) p _
  · refine PrefixCode.fixed (by omega) (by omega) p _ ?_
    intro a b hag
    rw [hag 1 (by omega)]
  · exact .reject _

theorem doGetPacket_prefixCode : PrefixCode 1 16 doGetPacket := by
  refine PrefixCode.congr (PrefixCode.select (fun a => a 0) (fun a b hag => hag 0 (by omega))
    (fun byte a len => if byte &&& 1 = 0 then
      if byte = 0 then getPad {} else if byte = 2 then getExt a len {} else getShortTnt byte
      else if byte &&& 2 ≠ 0 then getCyc byte a len {} else getOddSwitch byte a len {}) ?_) ?_
  · intro byte
    split_ifs
    · exact .done (by omega) _ fun _ _ _ => rfl
    · exact getExt_prefixCode _
    · exact .done (by omega) _ fun _ _ _ => rfl
    · exact getCyc_prefixCode byte _
    · exact getOddSwitch_prefixCode byte _
  · intro a len hlen
    have hne : len ≠ 0 := Nat.ne_of_gt hlen
    simp only [doGetPacket, if_neg hne]

theorem doGetPacket_congr {a b : Bytes} {len : ℕ} (h : Agree len a b) :
    doGetPacket a len = doGetPacket b len := by
  by_cases hlen : len = 0
  · simp only [doGetPacket, if_pos hlen]
  · exact doGetPacket_prefixCode.here a b len (by omega) h

end RPerf.Packets
