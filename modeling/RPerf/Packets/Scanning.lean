import RPerf.Packets.Delivery

/-!
# Scanning for a PSB

`intel_pt_scan_for_psb` ends, and when it succeeds it has fetched a PSB. The scan starts at
the current packet, not behind it, so what it has in front is `left`.
-/

namespace RPerf.Packets

open Lib

theorem psb_word : Word psbStr { type := .psb } := by decide

theorem getPacket_psb {l : List UInt8} (h : psbStr <+: l) :
    getPacket (bytesOf l) l.length = (.accept 16, { type := .psb }) := by
  obtain ⟨z, rfl⟩ := h
  have hd := psb_word.reads.extend (bytesOf (psbStr ++ z)) (psbStr ++ z).length (by simp)
    (bytesOf_append_agree psbStr z)
  have hlen : psbStr.length = 16 := rfl
  rw [getPacket_eq, hd, hlen]
  simp [absorbPads]

namespace Reader

theorem findPsb_some {l : List UInt8} {k : ℕ} (h : findPsb l = some k) :
    psbStr <+: l.drop k ∧ k ≤ l.length := by
  induction l generalizing k with
  | nil => simp [findPsb] at h
  | cons b l ih =>
    rw [findPsb] at h
    split_ifs at h with hp
    · cases h
      exact ⟨hp, Nat.zero_le _⟩
    · obtain ⟨j, hj, rfl⟩ := Option.map_eq_some_iff.mp h
      exact ⟨(ih hj).1, by simpa using (ih hj).2⟩

theorem getNextPacket_psb {r : Reader} (hs : r.Safe) (h : psbStr <+: r.buf.drop r.pktStep) :
    r.getNextPacket = (.ok, { r.stepOver with
      lastPacketType := r.packet.type, packet := { type := .psb }, pktLen := 16
      pktStep := 16 }) := by
  have hne : r.buf.drop r.pktStep ≠ [] := by
    intro hnil
    rw [hnil, List.prefix_nil] at h
    cases h
  have hget := getPacket_psb h
  simp only [getNextPacket]
  apply loop_of_leave
  rw [nextPacketPass, if_neg (not_lt.mpr hs)]
  simp only [stepOver, hne, if_false, parsePass, hget, accepted]
  rfl

structure Scanned (l : ℕ) (fr : Fetch × Reader) : Prop where
  overrun : fr.1 ≠ .overrun
  bad : fr.1 ≠ .bad
  safe : fr.2.Safe
  found : fr.1 = .ok → fr.2.packet = { type := .psb } ∧ fr.2.unread < l
  failed : fr.1 ≠ .ok → Advances fr.1 fr.2.unread l
  step : fr.1 ≠ .ok → fr.2.pktStep = 0

theorem Scanned.mono {l m : ℕ} {fr : Fetch × Reader} (h : Scanned l fr) (hlm : l ≤ m) :
    Scanned m fr where
  overrun := h.overrun
  bad := h.bad
  safe := h.safe
  found hok := ⟨(h.found hok).1, (h.found hok).2.trans_le hlm⟩
  failed hf := by
    obtain hlt | ⟨hnd, hle⟩ := h.failed hf
    · exact .inl (hlt.trans_le hlm)
    · exact .inr ⟨hnd, hle.trans hlm⟩
  step := h.step

variable (r : Reader)

def scanMeasure : ℕ := 2 * r.left + if (findPsb r.buf).isSome then 0 else 1

theorem getNextData_scanned (hbuf : r.buf = []) :
    (r.getNextData.1 = .ok ∧ r.getNextData.2.left < r.left) ∨
      (r.getNextData.1 ≠ .ok ∧ Scanned r.left r.getNextData) := by
  obtain hok | ⟨hne, hov, hbad, hadv, hstep⟩ := r.getNextData_left hbuf
  · exact .inl hok
  · refine .inr ⟨hne, hov, hbad, ?_, fun h => absurd h hne, fun _ => hadv, fun _ => hstep⟩
    rw [Safe, hstep]
    exact Nat.zero_le _

theorem getNextData_ok_nextBuf {r q : Reader} (h : r.getNextData = (.ok, q)) :
    q.nextBuf = none := by
  unfold getNextData at h
  cases hn : r.nextBuf with
  | some b =>
    simp only [hn] at h
    cases h
    rfl
  | none =>
    simp only [hn] at h
    obtain ⟨t, _, hd⟩ | ⟨t, _, hd⟩ | ⟨b, t, _, _, hd⟩ := r.getData_cases <;> rw [hd] at h
    · cases h
    · cases h
    · rw [← (Prod.mk.inj h).2]
      exact hn

theorem partPsb_le (buf : List UInt8) : partPsb buf ≤ buf.length := by
  unfold partPsb
  cases hf : (List.range' 1 15).reverse.find? fun i =>
    decide (i ≤ buf.length ∧ buf.drop (buf.length - i) = psbStr.take i) with
  | none => exact Nat.zero_le _
  | some i =>
    have hi := List.find?_some hf
    simp only [decide_eq_true_eq] at hi
    exact hi.1

theorem restPsb_le {buf : List UInt8} {part : ℕ} (h : restPsb buf part ≠ 0) :
    restPsb buf part = 16 - part ∧ 16 - part ≤ buf.length := by
  by_cases hc : buf.length < psbLen - part ∨ buf.take (psbLen - part) ≠ psbStr.drop part
  · exact absurd (if_pos hc) h
  · have hrest : restPsb buf part = psbLen - part := if_neg hc
    simp only [not_or, not_lt] at hc
    exact ⟨hrest, hc.1⟩

theorem left_skipBuffer : r.skipBuffer.left + r.buf.length = r.left := by
  simp only [skipBuffer, left, List.length_nil]
  omega

theorem joinPsb_measure {q : Reader} {part l : ℕ} (hnext : q.nextBuf = none)
    (hq : q.left + part < l) :
    (q.joinPsb part).left ≤ l ∧ (q.joinPsb part).scanMeasure < 2 * l + 1 := by
  have hleft : q.left = q.buf.length + traceSize q.trace := by simp [left, hnext, nextSize]
  by_cases h0 : restPsb q.buf part = 0
  · have hj : q.joinPsb part = q := by simp [joinPsb, h0]
    rw [hj, scanMeasure]
    refine ⟨by omega, ?_⟩
    split_ifs <;> omega
  · obtain ⟨hrest, hfit⟩ := restPsb_le h0
    have hj : q.joinPsb part = { q with
        pos := q.pos - part, nextBuf := some (q.buf.drop (16 - part)), buf := psbStr } := by
      simp only [joinPsb]
      rw [if_neg h0, hrest]
    have hnew : (q.joinPsb part).left ≤ l := by
      have hpsb : psbStr.length = 16 := rfl
      rw [hj]
      simp only [left, nextSize, List.length_drop, hpsb]
      omega
    have hsome : (findPsb (q.joinPsb part).buf).isSome = true := by
      rw [hj]
      exact (by decide : (findPsb psbStr).isSome = true)
    refine ⟨hnew, ?_⟩
    rw [scanMeasure, if_pos hsome]
    omega

theorem scanPass_measure {l : ℕ} (hl : r.left ≤ l) (hempty : r.buf = [] → r.left < l) :
    r.scanPass.Satisfies
      (fun r' => findPsb r.buf = none ∧ r'.left ≤ l ∧ r'.scanMeasure < 2 * l + 1)
      (Scanned l) := by
  have hpos : r.buf ≠ [] → 0 < r.buf.length := List.length_pos_iff.mpr
  have hskip := r.left_skipBuffer
  simp only [scanPass]
  split
  · next k hk =>
    obtain ⟨hpre, hle⟩ := findPsb_some hk
    have hlen : 16 ≤ (r.buf.drop k).length := hpre.length_le
    rw [getNextPacket_psb (r := { r with pktStep := k }) hle hpre]
    refine ⟨by simp, by simp, hlen, fun _ => ⟨rfl, ?_⟩, by simp, by simp⟩
    simp only [List.length_drop] at hlen
    simp only [unread, stepOver, List.length_drop]
    simp only [left] at hl
    omega
  · next hnone =>
    split_ifs with hpart
    · have hple := partPsb_le r.buf
      obtain ⟨hok, hlt⟩ | ⟨hne, hsc⟩ := r.skipBuffer.getNextData_scanned rfl
      · rcases hd : r.skipBuffer.getNextData with ⟨f, q⟩
        rw [hd] at hok hlt
        obtain rfl : f = .ok := hok
        have hnew := joinPsb_measure (q := q) (l := l) (getNextData_ok_nextBuf hd)
          (show q.left + partPsb r.buf < l by simp only at hlt; omega)
        simp only [getSplitPsb, hd]
        exact ⟨hnone, hnew⟩
      · rcases hd : r.skipBuffer.getNextData with ⟨f, q⟩
        rw [hd] at hne hsc
        cases f <;> simp only [getSplitPsb, hd] <;> first
          | exact absurd rfl hne
          | exact hsc.mono (by omega)
    · refine ⟨hnone, by omega, ?_⟩
      have hlt : r.skipBuffer.left < l := by
        by_cases hb : r.buf = []
        · have := hempty hb
          omega
        · have := hpos hb
          omega
      rw [scanMeasure]
      split_ifs <;> omega

theorem scanForPsbPass_measure :
    r.scanForPsbPass.Satisfies (fun r' => r'.left ≤ r.left ∧ r'.scanMeasure < r.scanMeasure)
      (Scanned r.left) := by
  unfold scanForPsbPass
  by_cases hbuf : r.buf = []
  · rw [if_pos hbuf]
    have hm : r.scanMeasure = 2 * r.left + 1 := by simp [scanMeasure, hbuf, findPsb]
    obtain ⟨hok, hlt⟩ | ⟨hne, hsc⟩ := r.getNextData_scanned hbuf
    · rcases hd : r.getNextData with ⟨f, q⟩
      rw [hd] at hok hlt
      obtain rfl : f = .ok := hok
      rw [hm]
      exact (q.scanPass_measure hlt.le fun _ => hlt).mono (fun _ h => h.2) fun _ h => h
    · split
      · next heq =>
        rw [heq] at hne
        exact absurd rfl hne
      · next heq =>
        rw [heq] at hsc
        exact hsc
  · rw [if_neg hbuf]
    refine (r.scanPass_measure le_rfl fun h => absurd h hbuf).mono ?_ fun _ h => h
    rintro r' ⟨hnone, hle, hlt⟩
    exact ⟨hle, by simpa [scanMeasure, hnone] using hlt⟩

theorem scanForPsb_scanned : Scanned r.left r.scanForPsb := by
  refine loop_total (I := fun q : Reader => q.left ≤ r.left)
    (Q := Scanned r.left) scanMeasure ?_ _ _
    ?_ le_rfl
  · intro q hq
    exact q.scanForPsbPass_measure.mono (fun q' h => ⟨h.1.trans hq, h.2⟩) fun fr h => h.mono hq
  · rw [scanMeasure]
    split_ifs <;> omega

end Reader

end RPerf.Packets
