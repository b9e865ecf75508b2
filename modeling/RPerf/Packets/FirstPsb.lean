import RPerf.Lib.Occurrences
import RPerf.Packets.Scanning

/-!
# The first PSB of a stream

Wherever a stream is cut into buffers, `intel_pt_scan_for_psb` stops at its first PSB. At
the end of a buffer only the longest beginning of a PSB is tried.
-/

namespace RPerf.Packets

open Lib

theorem findPsb_eq_memmem (l : List UInt8) : Reader.findPsb l = memmem psbStr l := by
  induction l with
  | nil => rfl
  | cons x l ih => rw [Reader.findPsb, memmem, ih]

theorem psbStr_alternates : ∀ m ≤ 15, ∀ n ≤ m, 1 ≤ n →
    (psbStr.take n).getLast? = (psbStr.take m).getLast? → psbStr.drop m <+: psbStr.drop n := by
  decide

theorem find?_reverse_range' (p : ℕ → Bool) (n : ℕ) :
    (∀ m, (List.range' 1 n).reverse.find? p = some m →
      p m = true ∧ 1 ≤ m ∧ m ≤ n ∧ ∀ i, m < i → i ≤ n → p i = false) ∧
    ((List.range' 1 n).reverse.find? p = none → ∀ i, 1 ≤ i → i ≤ n → p i = false) := by
  induction n with
  | zero =>
    refine ⟨fun m hm => absurd hm (by simp), fun _ i h1 h0 => ?_⟩
    omega
  | succ n ih =>
    rw [List.range'_1_concat, List.reverse_append, List.reverse_singleton, List.singleton_append,
      List.find?_cons]
    cases hp : p (1 + n) with
    | true =>
      refine ⟨?_, fun h => absurd h (by simp)⟩
      intro m hm
      obtain rfl : 1 + n = m := by simpa using hm
      exact ⟨hp, by omega, by omega, fun i hlt hle => by omega⟩
    | false =>
      have hlast : ∀ i, ¬ i ≤ n → i ≤ n + 1 → p i = false := by
        intro i hgt hle
        obtain rfl : i = 1 + n := by omega
        exact hp
      constructor
      · intro m hm
        obtain ⟨hpm, h1, hle, hmax⟩ := ih.1 m hm
        refine ⟨hpm, h1, by omega, fun i hlt hi => ?_⟩
        by_cases hin : i ≤ n
        · exact hmax i hlt hin
        · exact hlast i hin hi
      · intro hm i h1 hi
        by_cases hin : i ≤ n
        · exact ih.2 hm i h1 hin
        · exact hlast i hin hi

namespace Reader

theorem partPsb_spec (buf : List UInt8) :
    partPsb buf ≤ 15 ∧ partPsb buf ≤ buf.length ∧
      buf.drop (buf.length - partPsb buf) = psbStr.take (partPsb buf) ∧
      ∀ i, partPsb buf < i → i ≤ 15 → i ≤ buf.length →
        buf.drop (buf.length - i) ≠ psbStr.take i := by
  obtain ⟨hsome, hnone⟩ := find?_reverse_range'
    (fun i => decide (i ≤ buf.length ∧ buf.drop (buf.length - i) = psbStr.take i)) 15
  unfold partPsb
  cases hf : (List.range' 1 15).reverse.find? fun i =>
    decide (i ≤ buf.length ∧ buf.drop (buf.length - i) = psbStr.take i) with
  | none =>
    simp only [Option.getD_none]
    refine ⟨by omega, by omega, by simp, fun i hlt hle hlen heq => ?_⟩
    simpa [hlen, heq] using hnone hf i hlt hle
  | some m =>
    obtain ⟨hm, -, hle, hmax⟩ := hsome m hf
    simp only [decide_eq_true_eq] at hm
    simp only [Option.getD_some]
    refine ⟨hle, hm.1, hm.2, fun i hlt hi hlen heq => ?_⟩
    simpa [hlen, heq] using hmax i hlt hi

theorem restPsb_take {buf : List UInt8} {part : ℕ} (h : restPsb buf part ≠ 0) :
    buf.take (16 - part) = psbStr.drop part := by
  by_contra hne
  exact h (if_pos (.inr hne))

theorem not_occursAt_of_part {buf rest : List UInt8} (hnone : findPsb buf = none) {j : ℕ}
    (hj : j < buf.length - partPsb buf) : ¬ OccursAt psbStr (buf ++ rest) j := by
  intro hocc
  obtain ⟨-, -, -, hmax⟩ := partPsb_spec buf
  have hlen : psbStr.length = 16 := rfl
  by_cases hin : j + 16 ≤ buf.length
  · rw [findPsb_eq_memmem] at hnone
    exact memmem_none hnone j ((occursAt_front hin).mp hocc)
  · have hcut := ((occursAt_across (by omega) (by omega)).mp hocc).1
    have hback : buf.length - (buf.length - j) = j := by omega
    apply hmax (buf.length - j) (by omega) (by omega) (by omega)
    rw [hback]
    exact hcut

theorem not_occursAt_of_rest {buf next rest : List UInt8} (hnone : findPsb buf = none)
    (hnext : 16 ≤ next.length) (hrest : restPsb next (partPsb buf) = 0) {j : ℕ}
    (hj : j < buf.length) : ¬ OccursAt psbStr (buf ++ (next ++ rest)) j := by
  intro hocc
  obtain ⟨hle, hfit, hends, -⟩ := partPsb_spec buf
  have hlen : psbStr.length = 16 := rfl
  have hlow : buf.length - partPsb buf ≤ j := by
    by_contra hlt
    exact not_occursAt_of_part hnone (by omega) hocc
  obtain ⟨hcut, hmore⟩ := (occursAt_across (by omega) (by omega)).mp hocc
  have hlast : ∀ i < buf.length, (buf.drop i).getLast? = buf.getLast? := by
    intro i hi
    rw [List.getLast?_drop, if_neg (by omega)]
  have hsame : (psbStr.take (buf.length - j)).getLast? =
      (psbStr.take (partPsb buf)).getLast? := by
    rw [← hcut, ← hends, hlast j hj, hlast _ (by omega)]
  have hasks := psbStr_alternates (partPsb buf) hle (buf.length - j) (by omega) (by omega) hsame
  have hfound : psbStr.drop (partPsb buf) <+: next := by
    rw [← prefix_append_of_le (by rw [List.length_drop]; omega)]
    exact hasks.trans hmore
  have htake : next.take (psbLen - partPsb buf) = psbStr.drop (partPsb buf) := by
    rw [List.prefix_iff_eq_take, List.length_drop, hlen] at hfound
    exact hfound.symm
  have hno : ¬ (next.length < psbLen - partPsb buf ∨
      next.take (psbLen - partPsb buf) ≠ psbStr.drop (partPsb buf)) := by
    rintro (hshort | hne)
    · simp only [psbLen] at hshort
      omega
    · exact hne htake
  have hall : restPsb next (partPsb buf) = psbLen - partPsb buf := if_neg hno
  rw [hall, psbLen] at hrest
  omega

theorem getNextData_of_large {r : Reader} (hnext : r.nextBuf = none)
    (hlarge : ∀ x ∈ r.trace, TraceItem.Continues 16 x) :
    (r.trace = [] ∧ ∃ q, r.getNextData = (.nodata, q)) ∨
      ∃ b t, r.trace = .buffer b :: t ∧
        r.getNextData = (.ok, { r with pktStep := 0, buf := b.bytes, trace := t }) := by
  have hdata : r.getNextData = r.getData := by rw [getNextData, hnext]
  rw [hdata]
  cases htrace : r.trace with
  | nil =>
    refine .inl ⟨rfl, ?_⟩
    rw [getData, htrace]
    exact ⟨_, rfl⟩
  | cons x t =>
    have hx := hlarge x (by simp [htrace])
    cases x with
    | nomem => exact absurd hx (by simp [TraceItem.Continues])
    | buffer b => exact .inr ⟨b, t, rfl, getData_of_continues htrace hx⟩

structure Scanning (base : ℕ) (stream : List UInt8) (i : ℕ) (r : Reader) : Prop where
  pos_eq : r.pos = base + i
  rest : r.buf ++ (r.nextBuf.getD [] ++ traceBytes r.trace) = stream.drop i
  before : ∀ j < i, ¬ OccursAt psbStr stream j
  joined : ∀ b, r.nextBuf = some b → r.buf = psbStr ∧ b ≠ []
  large : ∀ x ∈ r.trace, TraceItem.Continues 16 x

def Stops (base : ℕ) (stream : List UInt8) (fr : Fetch × Reader) : Prop :=
  (fr.1 = .ok ∧ ∃ k, FirstAt psbStr stream k ∧
      Found (base + k) (stream.drop k) { type := .psb } 16 fr.2) ∨
    (fr.1 = .nodata ∧ ∀ k, ¬ OccursAt psbStr stream k)

namespace Scanning

variable {base i : ℕ} {stream : List UInt8} {r : Reader}

theorem occursAt_iff (h : Scanning base stream i r) (j : ℕ) :
    OccursAt psbStr stream (i + j) ↔
      OccursAt psbStr (r.buf ++ (r.nextBuf.getD [] ++ traceBytes r.trace)) j := by
  rw [h.rest, occursAt_drop]

theorem before_add (h : Scanning base stream i r) {n : ℕ}
    (hn : ∀ j < n, ¬ OccursAt psbStr (r.buf ++ (r.nextBuf.getD [] ++ traceBytes r.trace)) j) :
    ∀ j < i + n, ¬ OccursAt psbStr stream j := by
  intro j hj
  by_cases hlt : j < i
  · exact h.before j hlt
  · obtain ⟨j, rfl⟩ : ∃ m, j = i + m := ⟨j - i, by omega⟩
    rw [h.occursAt_iff]
    exact hn j (by omega)

theorem stops_of_found (h : Scanning base stream i r) {k : ℕ} (hk : findPsb r.buf = some k) :
    Stops base stream { r with pktStep := k }.getNextPacket := by
  have hmem := hk
  rw [findPsb_eq_memmem] at hmem
  obtain ⟨⟨hocc, hfirst⟩, hle⟩ := memmem_some hmem
  have hlen : psbStr.length = 16 := rfl
  have hroom : 16 ≤ r.buf.length - k := hocc.le_length
  have hfront : ∀ j ≤ k, OccursAt psbStr stream (i + j) ↔ OccursAt psbStr r.buf j := by
    intro j hj
    rw [h.occursAt_iff, occursAt_front (by omega)]
  have hdrop : r.buf.drop k ++ (r.nextBuf.getD [] ++ traceBytes r.trace) =
      stream.drop (i + k) := by
    rw [← List.drop_append_of_le_length hle, h.rest, List.drop_drop]
  rw [getNextPacket_psb (r := { r with pktStep := k }) hle hocc]
  refine .inl ⟨rfl, i + k, ⟨(hfront k le_rfl).mpr hocc, ?_⟩, ?_⟩
  · intro j hj
    by_cases hlt : j < i
    · exact h.before j hlt
    · obtain ⟨j, rfl⟩ : ∃ m, j = i + m := ⟨j - i, by omega⟩
      rw [hfront j (by omega)]
      exact hfirst j (by omega)
  · have hleft : ∀ b, r.nextBuf = some b → b ≠ [] ∧ 16 = (r.buf.drop k).length := by
      intro b hb
      obtain ⟨hbuf, hne⟩ := h.joined b hb
      rw [hbuf] at hk ⊢
      obtain rfl : 0 = k := Option.some.inj hk
      exact ⟨hne, rfl⟩
    refine ⟨⟨?_, hleft, fun x hx => (h.large x hx).mono (by decide),
      fun x hx => h.large x (List.mem_of_mem_tail hx), fun _ => h.large⟩, rfl, ?_, rfl, ?_⟩
    · simpa [Safe, stepOver] using hroom
    · change r.pos + k = base + (i + k)
      rw [h.pos_eq, Nat.add_assoc]
    · change (r.buf.drop k).drop 16 ++ r.nextBuf.getD [] ++ traceBytes r.trace = _
      rw [← hdrop, List.append_assoc, List.drop_append_of_le_length (by simpa using hroom)]

theorem stops_at_end (h : Scanning base stream i r) (hnone : findPsb r.buf = none)
    (hnext : r.nextBuf = none) (htrace : r.trace = []) (k : ℕ) : ¬ OccursAt psbStr stream k := by
  by_cases hlt : k < i
  · exact h.before k hlt
  · obtain ⟨k, rfl⟩ : ∃ m, k = i + m := ⟨k - i, by omega⟩
    rw [h.occursAt_iff, hnext, htrace]
    rw [findPsb_eq_memmem] at hnone
    simpa [traceBytes] using memmem_none hnone k

theorem join (h : Scanning base stream i r) (hnone : findPsb r.buf = none)
    (hpart : partPsb r.buf ≠ 0) (hnext : r.nextBuf = none) {b : Buffer} {t : List TraceItem}
    (htrace : r.trace = .buffer b :: t) :
    ∃ j, Scanning base stream j
      (joinPsb { r with pos := r.pos + r.buf.length, pktStep := 0, buf := b.bytes, trace := t }
        (partPsb r.buf)) := by
  have hlarge : 16 ≤ b.bytes.length := (h.large (.buffer b) (by simp [htrace])).2
  have hrest : r.buf ++ (b.bytes ++ traceBytes t) = stream.drop i := by
    rw [← h.rest, hnext, htrace]
    simp
  obtain ⟨hle, hfit, hends, -⟩ := partPsb_spec r.buf
  have htail : ∀ x ∈ t, TraceItem.Continues 16 x := fun x hx => h.large x (by simp [htrace, hx])
  by_cases h0 : restPsb b.bytes (partPsb r.buf) = 0
  · refine ⟨i + r.buf.length, ?_⟩
    simp only [joinPsb, if_pos h0]
    refine ⟨?_, ?_, h.before_add ?_, fun b' hb' => ?_, htail⟩
    · exact (congrArg (· + r.buf.length) h.pos_eq).trans (Nat.add_assoc _ _ _)
    · rw [← List.drop_drop, ← hrest, List.drop_left, hnext]
      rfl
    · intro j hj
      rw [h.rest, ← hrest]
      exact not_occursAt_of_rest hnone hlarge h0 hj
    · exact absurd (hnext.symm.trans hb') (by simp)
  · obtain ⟨hwhole, hroom⟩ := restPsb_le h0
    have hjoined : r.buf.drop (r.buf.length - partPsb r.buf) ++ b.bytes =
        psbStr ++ b.bytes.drop (16 - partPsb r.buf) := by
      calc r.buf.drop (r.buf.length - partPsb r.buf) ++ b.bytes
          = psbStr.take (partPsb r.buf) ++
              (b.bytes.take (16 - partPsb r.buf) ++ b.bytes.drop (16 - partPsb r.buf)) := by
            rw [hends, List.take_append_drop]
        _ = psbStr ++ b.bytes.drop (16 - partPsb r.buf) := by
            rw [restPsb_take h0, ← List.append_assoc, List.take_append_drop]
    refine ⟨i + (r.buf.length - partPsb r.buf), ?_⟩
    simp only [joinPsb, if_neg h0]
    rw [hwhole]
    refine ⟨?_, ?_, h.before_add ?_, fun b' hb' => ⟨rfl, ?_⟩, htail⟩
    · change r.pos + r.buf.length - partPsb r.buf = _
      rw [h.pos_eq]
      omega
    · rw [← List.drop_drop, ← hrest, List.drop_append_of_le_length (by omega)]
      simp only [Option.getD_some]
      rw [← List.append_assoc, ← List.append_assoc, hjoined]
    · intro j hj
      exact not_occursAt_of_part hnone hj
    · obtain rfl : b.bytes.drop (16 - partPsb r.buf) = b' := Option.some.inj hb'
      rw [ne_eq, List.drop_eq_nil_iff]
      omega

theorem scanPass (h : Scanning base stream i r) :
    r.scanPass.Satisfies (fun q => ∃ j, Scanning base stream j q) (Stops base stream) := by
  unfold Reader.scanPass
  cases hfind : findPsb r.buf with
  | some k => exact h.stops_of_found hfind
  | none =>
    have hnext : r.nextBuf = none := by
      cases hn : r.nextBuf with
      | none => rfl
      | some b =>
        rw [(h.joined b hn).1] at hfind
        exact absurd hfind (by decide)
    by_cases hpart : partPsb r.buf = 0
    · rw [if_neg (not_not.mpr hpart)]
      refine ⟨i + r.buf.length, ?_, ?_, h.before_add ?_, ?_, h.large⟩
      · exact (congrArg (· + r.buf.length) h.pos_eq).trans (Nat.add_assoc _ _ _)
      · rw [← List.drop_drop, ← h.rest, List.drop_left]
        rfl
      · intro j hj
        exact not_occursAt_of_part hfind (by omega)
      · intro b hb
        exact absurd (hnext.symm.trans hb) (by simp)
    · rw [if_pos hpart]
      rcases getNextData_of_large (r := r.skipBuffer) hnext h.large with
        ⟨htrace, q, hq⟩ | ⟨b, t, htrace, hq⟩
      · simp only [getSplitPsb, hq]
        exact .inr ⟨rfl, h.stops_at_end hfind hnext htrace⟩
      · simp only [getSplitPsb, hq]
        exact h.join hfind hpart hnext htrace

theorem scanForPsbPass (h : Scanning base stream i r) :
    r.scanForPsbPass.Satisfies (fun q => ∃ j, Scanning base stream j q) (Stops base stream) := by
  unfold Reader.scanForPsbPass
  by_cases hbuf : r.buf = []
  · rw [if_pos hbuf]
    have hnext : r.nextBuf = none := by
      cases hn : r.nextBuf with
      | none => rfl
      | some b => exact absurd (hbuf.symm.trans (h.joined b hn).1) (by decide)
    rcases getNextData_of_large hnext h.large with ⟨htrace, q, hq⟩ | ⟨b, t, htrace, hq⟩
    · rw [hq]
      exact .inr ⟨rfl, h.stops_at_end (by rw [hbuf]; rfl) hnext htrace⟩
    · rw [hq]
      have hnew : Scanning base stream i
          { r with pktStep := 0, buf := b.bytes, trace := t } := by
        refine ⟨h.pos_eq, ?_, h.before, ?_, fun x hx => h.large x (by simp [htrace, hx])⟩
        · rw [← h.rest, hbuf, hnext, htrace]
          simp
        · intro b' hb'
          exact absurd (hnext.symm.trans hb') (by simp)
      exact hnew.scanPass
  · rw [if_neg hbuf]
    exact h.scanPass

/-- The whole scan. -/
theorem scanForPsb (h : Scanning base stream i r) : Stops base stream r.scanForPsb := by
  have hend : r.scanForPsb.1 = .overrun ∨ Stops base stream r.scanForPsb := by
    refine loop_invariant (I := fun q => ∃ j, Scanning base stream j q)
      (Q := fun fr => fr.1 = .overrun ∨ Stops base stream fr) ?_ ?_ _ _ ⟨i, h⟩
    · rintro q ⟨j, hq⟩
      exact hq.scanForPsbPass.mono (fun _ h => h) fun _ h => .inr h
    · exact fun _ _ => .inl rfl
  exact hend.resolve_left r.scanForPsb_scanned.overrun

end Scanning

/-- A scan that is started in front of a stream reports its first buffer, and started again it stops
at the first PSB of the stream, with the bytes behind it to come, or at the end if there is none. -/
theorem scan_finds_first_psb (r : Reader) (first : Buffer) (rest : List Buffer) (hbuf : r.buf = [])
    (hnext : r.nextBuf = none) (htrace : r.trace = (first :: rest).map TraceItem.buffer)
    (hgap : first.consecutive = false) (hcons : ∀ b ∈ rest, b.consecutive = true)
    (hsize : ∀ b ∈ first :: rest, 16 ≤ b.bytes.length) :
    let stream := ((first :: rest).map Buffer.bytes).flatten
    let start := r.scanForPsb.2
    r.scanForPsb.1 = .nolink first.refTimestamp first.traceNr ∧ start.buf = first.bytes ∧
      start.pos = r.pos ∧
      (∀ k, FirstAt psbStr stream k →
        start.scanForPsb.1 = .ok ∧ start.scanForPsb.2.packet = { type := .psb } ∧
          start.scanForPsb.2.pos = r.pos + k ∧
          start.scanForPsb.2.ahead = stream.drop (k + 16) ∧
          ∀ ws, (∀ wp ∈ ws, Word wp.1 wp.2) → stream.drop (k + 16) = spell ws →
            start.scanForPsb.2.Delivers (place (r.pos + k + 16) ws)) ∧
      (start.scanForPsb.1 = .nodata ↔ ∀ k, ¬ OccursAt psbStr stream k) := by
  intro stream start
  have hne : first.bytes ≠ [] := by
    intro hnil
    have := hsize first List.mem_cons_self
    simp [hnil] at this
  have hscan : r.scanForPsb = (.nolink first.refTimestamp first.traceNr,
      { r with pktStep := 0, buf := first.bytes, trace := rest.map TraceItem.buffer }) := by
    apply loop_of_leave
    simp [scanForPsbPass, hbuf, getNextData, hnext, getData, htrace, hne, hgap]
  have hstart : start =
      { r with pktStep := 0, buf := first.bytes, trace := rest.map TraceItem.buffer } :=
    congrArg Prod.snd hscan
  have hat : Scanning r.pos stream 0 start := by
    rw [hstart]
    refine ⟨rfl, ?_, fun j hj => absurd hj (Nat.not_lt_zero j), ?_, ?_⟩
    · simp [stream, hnext, traceBytes, Function.comp_def]
    · intro b hb
      exact absurd (hnext.symm.trans hb) (by simp)
    · intro x hx
      obtain ⟨b, hb, rfl⟩ := List.mem_map.mp hx
      exact ⟨hcons b hb, hsize b (List.mem_cons_of_mem _ hb)⟩
  refine ⟨congrArg Prod.fst hscan, by rw [hstart], by rw [hstart], ?_, ?_⟩
  · intro k hk
    rcases hat.scanForPsb with ⟨hok, k', hk', hfound⟩ | ⟨-, hnone⟩
    · obtain rfl := hk.unique hk'
      have hahead : start.scanForPsb.2.ahead = stream.drop (k + 16) := by
        rw [hfound.ahead, List.drop_drop]
      refine ⟨hok, hfound.packet, hfound.pos_eq, hahead, fun ws hws hspell => ?_⟩
      apply delivers_of_expects
      refine ⟨hfound.streaming, ws, hws, hahead.trans hspell, ?_⟩
      rw [hfound.pos_eq, hfound.step]
    · exact absurd hk.1 (hnone k)
  · rcases hat.scanForPsb with ⟨hok, k, hk, -⟩ | ⟨hnodata, hnone⟩
    · rw [hok]
      exact ⟨fun h => absurd h (by decide), fun h => absurd hk.1 (h k)⟩
    · exact ⟨fun _ => hnone, fun _ => hnodata⟩

/-- Bytes, a PSB and a PSBEND, cut in the middle of the PSB. -/
theorem scan_finds_split_psb :
    let stream : List UInt8 := List.replicate 9 1 ++ psbStr ++ [2, 0x23] ++ List.replicate 16 0
    let r : Reader := { trace := [.buffer { bytes := stream.take 17, consecutive := false },
      .buffer { bytes := stream.drop 17 }] }
    r.scanForPsb.2.scanForPsb.1 = .ok ∧ r.scanForPsb.2.scanForPsb.2.pos = 9 := by
  intro stream r
  have hscan := scan_finds_first_psb r { bytes := stream.take 17, consecutive := false }
    [{ bytes := stream.drop 17 }] rfl rfl rfl rfl (by decide) (by decide)
  obtain ⟨hok, -, hpos, -⟩ := hscan.2.2.2.1 9 ⟨by decide, by decide⟩
  exact ⟨hok, hpos⟩

end Reader

end RPerf.Packets
