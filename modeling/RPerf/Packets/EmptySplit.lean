import RPerf.Packets.Consumption

/-!
# When a fetch ends outside its buffer

A packet split over two buffers may end where the second one does.
-/

namespace RPerf.Packets

open Lib

namespace Reader

def BadHead : List TraceItem → Prop
  | .buffer b :: _ =>
    b.bytes ≠ [] ∧ b.consecutive = true ∧
      ∀ n, (getPacket (bytesOf (b.bytes.take pktMaxSz)) (b.bytes.take pktMaxSz).length).1
        ≠ .accept n
  | _ => False

def EmptySplit (r : Reader) : Prop :=
  r.stepOver.buf = [] ∧ r.nextBuf = some [] ∧ BadHead r.trace

def MeetsEmptySplit (r : Reader) : Prop :=
  Meets nextPacketPass EmptySplit { r with lastPacketType := r.packet.type }

variable {r : Reader}

theorem accepted_safe {n : ℕ} (h : n ≤ r.buf.length) :
    (r.accepted n).Satisfies Safe fun fr => fr.2.Safe :=
  accepted_satisfies h h

theorem getSplitPacket_safe (hbuf : r.buf ≠ []) : r.getSplitPacket.2.Safe := by
  have hpos := List.length_pos_iff.mpr hbuf
  obtain ⟨t, _, hd⟩ | ⟨t, _, hd⟩ | ⟨b, t, _, _, hd⟩ := r.getData_cases
  · simp [getSplitPacket, hd, Safe]
  · simp [getSplitPacket, hd, Safe]
  · by_cases hc : b.consecutive
    · rw [if_pos hc] at hd
      simp only [getSplitPacket, hd]
      split
      · split_ifs
        · exact hpos
        · exact Nat.zero_le _
      · exact hpos
    · rw [if_neg hc] at hd
      simp [getSplitPacket, hd, Safe]

theorem parsePass_safe (hbuf : r.buf ≠ []) : r.parsePass.Satisfies Safe fun fr => fr.2.Safe := by
  have hpos : 1 ≤ r.buf.length := List.length_pos_iff.mpr hbuf
  simp only [parsePass]
  split
  · next n hgot => exact accepted_safe (getPacket_bounds hgot).2
  · exact hpos
  · split_ifs
    · have hsplit := getSplitPacket_safe (r := { r with packet :=
        (getPacket (bytesOf r.buf) r.buf.length).2 }) hbuf
      split
      · exact accepted_safe le_rfl
      · next heq =>
        rw [heq] at hsplit
        exact hsplit
    · exact hpos

theorem getSplitPacket_empty (hbuf : r.buf = []) :
    (r.getSplitPacket.1 = .ok → ¬ BadHead r.trace) ∧
      (r.getSplitPacket.1 ≠ .ok → (r.getSplitPacket.2.Safe ↔ ¬ BadHead r.trace)) := by
  match ht : r.trace with
  | [] => simp [getSplitPacket, getData, ht, BadHead, Safe]
  | .nomem :: t => simp [getSplitPacket, getData, ht, BadHead, Safe]
  | .buffer b :: t =>
    by_cases hb : b.bytes = []
    · simp [getSplitPacket, getData, ht, BadHead, Safe, hb]
    by_cases hc : b.consecutive
    · simp only [getSplitPacket, getData, ht, hb, if_false, hc, if_true, hbuf, List.nil_append,
        List.length_nil, Nat.sub_zero, BadHead, ne_eq, not_false_iff, true_and]
      split
      · next n hgot => exact ⟨fun _ hall => hall n hgot, fun h => absurd rfl h⟩
      · next hgot =>
        refine ⟨fun h => absurd h (by simp [badPacket]), fun _ => iff_of_false ?_ ?_⟩
        · simp [badPacket, Safe]
        · exact not_not.mpr hgot
    · simp [getSplitPacket, getData, ht, BadHead, Safe, hb, hc]

theorem parsePass_empty (hbuf : r.buf = []) (hnext : r.nextBuf = none) :
    r.parsePass.Satisfies (fun r' => r'.Safe ∧ ¬ BadHead r.trace)
      fun fr => fr.2.Safe ↔ ¬ BadHead r.trace := by
  have hmore : getPacket (bytesOf r.buf) r.buf.length = (.more, {}) := by
    simp [hbuf, getPacket, doGetPacket]
  obtain ⟨hok, hfail⟩ := getSplitPacket_empty (r := { r with packet := {} }) hbuf
  have hlen : r.buf.length < pktMaxSz := by simp [hbuf, pktMaxSz]
  simp only [parsePass, hmore, hlen, hnext, and_self, if_true]
  simp only [hnext] at hok hfail
  split
  · next r' heq =>
    rw [heq] at hok
    exact accepted_satisfies ⟨le_rfl, hok rfl⟩ (iff_of_true le_rfl (hok rfl))
  · next f r' hne heq =>
    rw [heq] at hfail
    exact hfail hne

theorem nextPacketPass_safe (hs : r.Safe) :
    r.nextPacketPass.Satisfies (fun r' => r'.Safe ∧ ¬ r.EmptySplit)
      fun fr => fr.2.Safe ↔ ¬ r.EmptySplit := by
  have clean : ∀ {p : Pass Reader (Fetch × Reader)}, ¬ r.EmptySplit →
      p.Satisfies Safe (fun fr => fr.2.Safe) →
      p.Satisfies (fun r' => r'.Safe ∧ ¬ r.EmptySplit) fun fr => fr.2.Safe ↔ ¬ r.EmptySplit :=
    fun hne hp => hp.mono (fun _ h => ⟨h, hne⟩) fun _ h => iff_of_true h hne
  have hnone : r.stepOver.nextBuf = none → ¬ r.EmptySplit :=
    fun hn h => absurd (hn.symm.trans h.2.1) (by simp)
  simp only [nextPacketPass]
  rw [if_neg (not_lt.mpr hs)]
  by_cases hbuf : r.stepOver.buf = []
  · rw [if_pos hbuf]
    obtain ⟨b, hn, hd⟩ | ⟨t, hn, _, hd⟩ | ⟨t, hn, _, hd⟩ | ⟨b, t, hn, _, hb, hd⟩ :=
      r.stepOver.getNextData_cases
    · rw [hd]
      by_cases hb : b = []
      · have hiff : r.EmptySplit ↔ BadHead r.trace :=
          ⟨fun h => h.2.2, fun h => ⟨hbuf, hb ▸ hn, h⟩⟩
        rw [hiff]
        exact parsePass_empty (r := { r.stepOver with buf := b, nextBuf := none }) hb rfl
      · exact clean (fun h => hb (Option.some.inj (hn.symm.trans h.2.1))) (parsePass_safe hb)
    · rw [hd]
      exact clean (hnone hn) (Nat.zero_le _)
    · rw [hd]
      exact clean (hnone hn) (Nat.zero_le _)
    · rw [hd]
      by_cases hc : b.consecutive
      · rw [if_pos hc]
        exact clean (hnone hn) (parsePass_safe hb)
      · rw [if_neg hc]
        exact clean (hnone hn) (Nat.zero_le _)
  · rw [if_neg hbuf]
    exact clean (fun h => hbuf h.1) (parsePass_safe hbuf)

theorem getNextPacket_safe_iff (hs : r.Safe) : r.getNextPacket.2.Safe ↔ ¬ r.MeetsEmptySplit := by
  refine loop_total (I := fun q => q.Safe ∧
      (r.MeetsEmptySplit ↔ Meets nextPacketPass EmptySplit q))
    (Q := fun fr : Fetch × Reader => fr.2.Safe ↔ ¬ r.MeetsEmptySplit) unread ?_ _ _
    (Nat.lt_succ_self _) ⟨hs, Iff.rfl⟩
  rintro q ⟨hq, hiff⟩
  have hsafe := nextPacketPass_safe hq
  have hunread := q.nextPacketPass_unread hq
  cases hp : q.nextPacketPass with
  | leave fr =>
    rw [hp] at hsafe
    rw [Pass.satisfies_leave, hiff, meets_of_leave hp]
    exact hsafe
  | again q' =>
    rw [hp] at hsafe hunread
    refine ⟨⟨hsafe.1, ?_⟩, hunread.2⟩
    rw [hiff, meets_of_again hp]
    exact or_iff_right hsafe.2

end Reader

end RPerf.Packets
