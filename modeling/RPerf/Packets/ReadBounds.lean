import RPerf.Packets.Delivery

/-!
# No packet is read behind its buffer

The getters look at no byte at or behind the length they are given: two buffers that agree
below it have the same outcome, the packet of a failure included.
-/

namespace RPerf.Packets

open Lib

theorem absorbPads_congr {a b : Bytes} {len : ℕ} (h : Agree len a b) :
    ∀ fuel n, absorbPads a len fuel n = absorbPads b len fuel n := by
  intro fuel
  induction fuel with
  | zero => intros; rfl
  | succ fuel ih =>
    intro n
    by_cases hn : n < len
    · rw [absorbPads, absorbPads, h n hn, ih]
    · simp [absorbPads, hn]

theorem getPacket_congr {a b : Bytes} {len : ℕ} (h : Agree len a b) :
    getPacket a len = getPacket b len := by
  rw [getPacket_eq, getPacket_eq, doGetPacket_congr h]
  simp only [absorbPads_congr h]

theorem doGetPacket_reads {a : Bytes} {len n : ℕ} {p : Pkt}
    (h : doGetPacket a len = (.accept n, p)) :
    (∀ b len', n ≤ len' → Agree n b a → doGetPacket b len' = (.accept n, p)) ∧
      ∀ b len', len' < n → Agree len' b a → (doGetPacket b len').1 = .more := by
  obtain ⟨hone, hle, _⟩ := doGetPacket_bounds h
  obtain ⟨_, hreads⟩ := doGetPacket_prefixCode.reads a len n p (hone.trans hle) h
  refine ⟨hreads.extend, ?_⟩
  intro b len' hlt hag
  by_cases hzero : len' = 0
  · subst hzero
    rfl
  · exact hreads.cut b len' (by omega) hlt hag

/-- Packets are words of one to sixteen bytes of a prefix code, and neither getter looks behind its
buffer. -/
theorem packets_prefix_code_bounded (a : Bytes) (len : ℕ) :
    (∀ b, Agree len a b → doGetPacket a len = doGetPacket b len ∧
      getPacket a len = getPacket b len) ∧
    ((doGetPacket a len).1 = .more ∨ (doGetPacket a len).1 = .reject ∨
      ∃ n, (doGetPacket a len).1 = .accept n ∧ 1 ≤ n ∧ n ≤ min len 16) ∧
    (∀ n p, doGetPacket a len = (.accept n, p) →
      (∀ b len', n ≤ len' → Agree n b a → doGetPacket b len' = (.accept n, p)) ∧
      (∀ b len', len' < n → Agree len' b a → (doGetPacket b len').1 = .more) ∧
      ∃ m, getPacket a len = (.accept m, p) ∧ n ≤ m ∧ m ≤ len ∧
        ∀ i, n ≤ i → i < m → a i = 0) ∧
    ((∀ n, (doGetPacket a len).1 ≠ .accept n) → getPacket a len = doGetPacket a len) := by
  refine ⟨fun b hag => ⟨doGetPacket_congr hag, getPacket_congr hag⟩, ?_, ?_, ?_⟩
  · rcases hd : doGetPacket a len with ⟨_ | _ | n, p⟩
    · exact .inl rfl
    · exact .inr (.inl rfl)
    · obtain ⟨hone, hle, hsixteen⟩ := doGetPacket_bounds hd
      exact .inr (.inr ⟨n, rfl, hone, le_min hle hsixteen⟩)
  · intro n p hd
    obtain ⟨_, hle, _⟩ := doGetPacket_bounds hd
    obtain ⟨hextend, hcut⟩ := doGetPacket_reads hd
    refine ⟨hextend, hcut, absorbPads a len 8 n, ?_, le_absorbPads a len 8 n,
      absorbPads_le a len 8 n hle, absorbPads_zero a len 8 n⟩
    rw [getPacket_eq, hd]
  · intro hno
    rw [getPacket_eq]
    rcases hd : doGetPacket a len with ⟨_ | _ | n, p⟩
    · rfl
    · rfl
    · exact absurd (by rw [hd]) (hno n)

end RPerf.Packets
