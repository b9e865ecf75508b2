import RPerf.Packets.Consumption
import Mathlib.Data.List.GetD

/-!
# A packet that is put back

After a successful fetch the packet stands at the front of `buf`, also if it was put
together from two buffers.
-/

namespace RPerf.Packets

open Lib

theorem bytesOf_take_agree (l : List UInt8) (n : ℕ) : Agree n (bytesOf (l.take n)) (bytesOf l) := by
  intro i hi
  simp [bytesOf, List.getD_eq_getElem?_getD, hi]

theorem absorbPads_cut {a b : Bytes} {len n : ℕ} (hag : Agree n b a) :
    ∀ fuel m, absorbPads a len fuel m = n → absorbPads b n fuel m = n := by
  intro fuel
  induction fuel with
  | zero => exact fun m h => h
  | succ fuel ih =>
    intro m h
    rw [absorbPads] at h ⊢
    by_cases hpad : m < 8 ∧ m < len ∧ a m = 0
    · rw [if_pos hpad] at h
      have hm : m + 1 ≤ n := h ▸ le_absorbPads a len fuel (m + 1)
      rw [if_pos ⟨hpad.1, hm, (hag m hm).trans hpad.2.2⟩]
      exact ih (m + 1) h
    · rw [if_neg hpad] at h
      rw [if_neg (by omega), h]

theorem getPacket_take {l : List UInt8} {n : ℕ} {p : Pkt}
    (h : getPacket (bytesOf l) l.length = (.accept n, p)) :
    getPacket (bytesOf (l.take n)) (l.take n).length = (.accept n, p) := by
  obtain ⟨m, hget, hpads⟩ := getPacket_accept h
  obtain ⟨hpos, hle, -⟩ := doGetPacket_bounds hget
  have hlen : (l.take n).length = n := by
    have hn := (getPacket_bounds (by rw [h])).2
    simpa using hn
  have hag := bytesOf_take_agree l n
  have hmn : m ≤ n := hpads ▸ le_absorbPads _ _ _ _
  have hword := (doGetPacket_prefixCode.reads _ _ _ _ (by omega) hget).2
  have hget' : doGetPacket (bytesOf (l.take n)) n = (.accept m, p) :=
    hword.extend _ n hmn (hag.mono hmn)
  rw [hlen, getPacket, hget']
  simp only [absorbPads_cut hag 8 m hpads.symm]

namespace Reader

structure AtPacket (r : Reader) : Prop where
  reads : getPacket (bytesOf r.buf) r.buf.length = (.accept r.pktStep, r.packet)
  len : r.pktLen = r.pktStep
  type : r.packet.type ≠ .pad

theorem AtPacket.pktStep_pos {r : Reader} (h : r.AtPacket) :
    1 ≤ r.pktStep ∧ r.pktStep ≤ r.buf.length :=
  getPacket_bounds (by rw [h.reads])

theorem accepted_atPacket {r : Reader} {n : ℕ}
    (h : getPacket (bytesOf r.buf) r.buf.length = (.accept n, r.packet)) :
    (r.accepted n).Satisfies (fun _ => True) fun fr => fr.1 = .ok → fr.2.AtPacket := by
  simp only [accepted]
  split_ifs with hpad
  · trivial
  · exact fun _ => ⟨h, rfl, hpad⟩

theorem getSplitPacket_atPacket {r r' : Reader} (h : r.getSplitPacket = (.ok, r')) :
    getPacket (bytesOf r'.buf) r'.buf.length = (.accept r'.buf.length, r'.packet) := by
  unfold getSplitPacket at h
  split at h
  · rename_i q hdata
    simp only at h
    split at h
    · rename_i n hscan
      split_ifs at h
      · cases h
      · cases h
        have hget : getPacket (bytesOf (r.buf ++ q.buf.take (pktMaxSz - r.buf.length)))
            (r.buf ++ q.buf.take (pktMaxSz - r.buf.length)).length = (.accept n, _) :=
          Prod.ext hscan rfl
        have hn := (getPacket_bounds hscan).2
        have hlen : ((r.buf ++ q.buf.take (pktMaxSz - r.buf.length)).take n).length = n := by
          rw [List.length_take]
          omega
        have htake := getPacket_take hget
        simp only [hlen] at htake ⊢
        exact htake
    · cases h
  · rename_i f q hne hdata
    cases h
    exact absurd rfl hne

theorem parsePass_atPacket (r : Reader) :
    r.parsePass.Satisfies (fun _ => True) fun fr => fr.1 = .ok → fr.2.AtPacket := by
  rcases hget : getPacket (bytesOf r.buf) r.buf.length with ⟨s, p⟩
  simp only [parsePass, hget]
  cases s with
  | accept n => exact accepted_atPacket hget
  | reject =>
    intro hok
    cases hok
  | more =>
    simp only
    split_ifs
    · split
      · rename_i q hsplit
        exact accepted_atPacket (getSplitPacket_atPacket hsplit)
      · rename_i f q hne hsplit
        exact fun hok => absurd hok hne
    · intro hok
      cases hok

theorem nextPacketPass_atPacket (r : Reader) :
    r.nextPacketPass.Satisfies (fun _ => True) fun fr => fr.1 = .ok → fr.2.AtPacket := by
  simp only [nextPacketPass]
  split_ifs
  · intro hok
    cases hok
  · split
    · exact parsePass_atPacket _
    · rename_i f q hne hdata
      exact fun hok => absurd hok hne
  · exact parsePass_atPacket _

theorem getNextPacket_atPacket {r r' : Reader} (h : r.getNextPacket = (.ok, r')) : r'.AtPacket := by
  have hloop : r.getNextPacket.1 = .ok → r.getNextPacket.2.AtPacket := by
    apply loop_invariant (I := fun _ => True)
      (Q := fun fr : Fetch × Reader => fr.1 = .ok → fr.2.AtPacket) _ _ _ _ trivial
    · exact fun q _ => q.nextPacketPass_atPacket
    · exact fun q _ => nofun
  rw [h] at hloop
  exact hloop rfl

theorem AtPacket.fetch_again {r : Reader} (h : r.AtPacket) : { r with pktStep := 0 }.getNextPacket =
      (.ok, { r with lastPacketType := r.packet.type }) := by
  have hpos := h.pktStep_pos
  have hbuf : r.buf ≠ [] := by
    intro hnil
    rw [hnil] at hpos
    simp at hpos
    omega
  simp only [getNextPacket]
  apply loop_of_leave
  simp only [nextPacketPass, stepOver, Nat.not_lt_zero, if_false, List.drop_zero, Nat.add_zero,
    if_neg hbuf, parsePass, h.reads, accepted, if_neg h.type, ← h.len]

end Reader

end RPerf.Packets
