import Mathlib.Data.List.GetD
import RPerf.Packets.Consumption

/-!
# Buffer boundaries are invisible

A stream is a concatenation of packet words.
-/

namespace RPerf.Packets

open Lib

/-- The bytes `w` are one packet `p`, accepted as a whole. -/
def Word (w : List UInt8) (p : Pkt) : Prop :=
  doGetPacket (bytesOf w) w.length = (.accept w.length, p)

instance (w : List UInt8) (p : Pkt) : Decidable (Word w p) :=
  inferInstanceAs (Decidable (_ = _))

/-- The packets other than PAD of a list of words, with their positions. -/
def place : ℕ → List (List UInt8 × Pkt) → List (Pkt × ℕ)
  | _, [] => []
  | pos, (w, p) :: ws =>
    if p.type = .pad then place (pos + w.length) ws
    else (p, pos) :: place (pos + w.length) ws

/-- The byte stream a list of words spells. -/
def spell (ws : List (List UInt8 × Pkt)) : List UInt8 := (ws.map Prod.fst).flatten

variable {p : Pkt} {w : List UInt8}

theorem Word.length_pos (h : Word w p) : 1 ≤ w.length :=
  (doGetPacket_bounds h).1

theorem Word.length_le (h : Word w p) : w.length ≤ 16 :=
  (doGetPacket_bounds h).2.2

theorem Word.reads (h : Word w p) : Reads 1 16 doGetPacket (bytesOf w) w.length p :=
  (doGetPacket_prefixCode.reads _ _ _ _ h.length_pos h).2

theorem bytesOf_append_agree (w z : List UInt8) :
    Agree w.length (bytesOf (w ++ z)) (bytesOf w) := by
  intro i hi
  exact List.getD_append _ _ _ _ hi

theorem Word.of_zero {t : List UInt8} (h : Word (0 :: t) p) : t = [] ∧ p.type = .pad := by
  have hpad : doGetPacket (bytesOf (0 :: t)) (0 :: t).length = (.accept 1, { type := .pad }) := by
    simp [doGetPacket, bytesOf, getPad]
  rw [Word, hpad] at h
  simp only [Prod.mk.injEq, Scan.accept.injEq, List.length_cons] at h
  exact ⟨List.length_eq_zero_iff.mp (by omega), by rw [← h.2]⟩

theorem absorbPads_zero (buf : Bytes) (len : ℕ) :
    ∀ fuel n i, n ≤ i → i < absorbPads buf len fuel n → buf i = 0 := by
  intro fuel
  induction fuel with
  | zero =>
    intro n i hn hi
    simp only [absorbPads] at hi
    omega
  | succ fuel ih =>
    intro n i hn hi
    rw [absorbPads] at hi
    split_ifs at hi with h
    · by_cases hin : i = n
      · rw [hin]
        exact h.2.2
      · exact ih (n + 1) i (by omega) hi
    · omega

theorem getPacket_of_word {z : List UInt8} (h : Word w p) :
    ∃ j, j ≤ z.length ∧ z.take j = List.replicate j 0 ∧
      getPacket (bytesOf (w ++ z)) (w ++ z).length = (.accept (w.length + j), p) := by
  have hd : doGetPacket (bytesOf (w ++ z)) (w ++ z).length = (.accept w.length, p) :=
    h.reads.extend _ _ (by simp) (bytesOf_append_agree w z)
  set m := absorbPads (bytesOf (w ++ z)) (w ++ z).length 8 w.length with hm
  have hlo : w.length ≤ m := le_absorbPads _ _ _ _
  have hhi : m ≤ (w ++ z).length := absorbPads_le _ _ _ _ (by simp)
  simp only [List.length_append] at hhi
  refine ⟨m - w.length, by omega, ?_, ?_⟩
  · apply List.ext_getElem
    · simp; omega
    · intro i h1 h2
      simp only [List.length_take, List.length_replicate] at h1 h2
      have hz := absorbPads_zero (bytesOf (w ++ z)) (w ++ z).length 8 w.length (w.length + i)
        (by omega) (by rw [← hm]; omega)
      simp only [bytesOf] at hz
      rw [List.getD_append_right _ _ _ _ (by omega), List.getD_eq_getElem _ _ (by omega)] at hz
      simpa using hz
  · rw [getPacket_eq, hd]
    simp only [Prod.mk.injEq, Scan.accept.injEq, and_true]
    omega

theorem getPacket_of_cut {z : List UInt8} (h : Word (w ++ z) p) (hw : w ≠ []) (hz : z ≠ []) :
    (getPacket (bytesOf w) w.length).1 = .more := by
  have h1 := List.length_pos_iff.mpr hw
  have h2 := List.length_pos_iff.mpr hz
  have hmore := h.reads.cut (bytesOf w) w.length h1 (by simp; omega)
    (bytesOf_append_agree w z).symm
  rw [getPacket_eq, hmore]

theorem spell_drop_zeros (j : ℕ) :
    ∀ (ws : List (List UInt8 × Pkt)) (pos : ℕ), (∀ wp ∈ ws, Word wp.1 wp.2) →
      j ≤ (spell ws).length → (spell ws).take j = List.replicate j 0 →
      ∃ ws', (∀ wp ∈ ws', Word wp.1 wp.2) ∧ spell ws' = (spell ws).drop j ∧
        place (pos + j) ws' = place pos ws := by
  induction j with
  | zero =>
    intro ws pos hws _ _
    exact ⟨ws, hws, by simp, rfl⟩
  | succ j ih =>
    intro ws pos hws hlen htake
    cases ws with
    | nil => simp [spell] at hlen
    | cons wp ws =>
      obtain ⟨w, p⟩ := wp
      have hw := hws (w, p) (by simp)
      cases w with
      | nil => simpa using hw.length_pos
      | cons b t =>
        simp only [spell, List.map_cons, List.flatten_cons, List.cons_append, List.take_succ_cons,
          List.replicate_succ, List.cons.injEq] at htake
        obtain ⟨rfl, htake⟩ := htake
        obtain ⟨rfl, hp⟩ := hw.of_zero
        have hlen' : j ≤ (spell ws).length := by
          simp only [spell, List.map_cons, List.flatten_cons, List.length_append,
            List.length_cons, List.length_nil] at hlen
          simp only [spell]
          omega
        obtain ⟨ws', hws', hsp, hpl⟩ :=
          ih ws (pos + 1) (fun q hq => hws q (by simp [hq])) hlen' (by simpa [spell] using htake)
        refine ⟨ws', hws', ?_, ?_⟩
        · rw [hsp]
          simp [spell]
        · rw [place, if_pos hp, List.length_singleton, ← hpl, Nat.add_assoc, Nat.add_comm 1 j]

namespace Reader

def traceBytes (t : List TraceItem) : List UInt8 :=
  (t.map fun | .nomem => [] | .buffer b => b.bytes).flatten

def ahead (r : Reader) : List UInt8 :=
  r.buf.drop r.pktStep ++ r.nextBuf.getD [] ++ traceBytes r.trace

def TraceItem.Continues (k : ℕ) : TraceItem → Prop
  | .nomem => False
  | .buffer b => b.consecutive = true ∧ k ≤ b.bytes.length

structure Streaming (r : Reader) : Prop where
  safe : r.Safe
  leftovers : ∀ b, r.nextBuf = some b → b ≠ [] ∧ r.pktStep = r.buf.length
  nonempty : ∀ i ∈ r.trace, TraceItem.Continues 1 i
  large : ∀ i ∈ r.trace.tail, TraceItem.Continues 16 i
  headLarge : r.pktStep < r.buf.length ∨ r.nextBuf ≠ none →
    ∀ i ∈ r.trace, TraceItem.Continues 16 i

structure Found (pos : ℕ) (stream : List UInt8) (p : Pkt) (n : ℕ) (r : Reader) : Prop where
  streaming : r.Streaming
  packet : r.packet = p
  pos_eq : r.pos = pos
  step : r.pktStep = n
  ahead : r.ahead = stream.drop n

def foundPass (r : Reader) : Pass Reader (Fetch × Reader) :=
  if r.packet.type = .pad then .again r else .leave (.ok, r)

@[simp] theorem traceBytes_buffer (b : Buffer) (t : List TraceItem) :
    traceBytes (.buffer b :: t) = b.bytes ++ traceBytes t := by
  simp [traceBytes]

theorem TraceItem.Continues.mono {i : TraceItem} {k m : ℕ} (h : TraceItem.Continues k i)
    (hm : m ≤ k) : TraceItem.Continues m i := by
  cases i with
  | nomem => exact h
  | buffer b => exact ⟨h.1, hm.trans h.2⟩

variable {r : Reader} {p : Pkt} {w rest : List UInt8} {E : List (Pkt × ℕ)}

theorem getData_of_continues {b : Buffer} {t : List TraceItem} {k : ℕ}
    (ht : r.trace = .buffer b :: t) (hb : TraceItem.Continues (k + 1) (.buffer b)) :
    r.getData = (.ok, { r with pktStep := 0, buf := b.bytes, trace := t }) := by
  have hne : b.bytes ≠ [] := List.ne_nil_of_length_pos (by have := hb.2; omega)
  simp [getData, ht, hne, hb.1]

theorem parsePass_inside {c : List UInt8} (hw : Word w p) (hn : r.nextBuf = none)
    (hlarge : ∀ i ∈ r.trace, TraceItem.Continues 16 i) (hbuf : r.buf = w ++ c) :
    ∃ j r', j ≤ c.length ∧ c.take j = List.replicate j 0 ∧ r.parsePass = foundPass r' ∧
      Found r.pos (r.buf ++ traceBytes r.trace) p (w.length + j) r' := by
  obtain ⟨j, hj, hz, hg⟩ := getPacket_of_word (z := c) hw
  rw [← hbuf] at hg
  refine ⟨j, { r with packet := p, pktLen := w.length + j, pktStep := w.length + j }, hj, hz,
    ?_, ?_⟩
  · simp only [parsePass, hg, accepted, foundPass]
  · have hlen : w.length + j ≤ r.buf.length := by
      rw [hbuf, List.length_append]
      omega
    refine ⟨⟨hlen, ?_, ?_, ?_, fun _ => hlarge⟩, rfl, rfl, rfl, ?_⟩
    · intro b hb
      simp [hn] at hb
    · exact fun i hi => (hlarge i hi).mono (by omega)
    · exact fun i hi => hlarge i (List.mem_of_mem_tail hi)
    · simp [ahead, hn, List.drop_append_of_le_length hlen]

theorem parsePass_across {a : List UInt8} (hw : Word (r.buf ++ a) p) (ha : a ≠ []) (hb : r.buf ≠ [])
    (hn : r.nextBuf = none) (hlarge : ∀ i ∈ r.trace, TraceItem.Continues 16 i)
    (ht : traceBytes r.trace = a ++ rest) :
    ∃ j r', j ≤ rest.length ∧ rest.take j = List.replicate j 0 ∧ r.parsePass = foundPass r' ∧
      Found r.pos (r.buf ++ traceBytes r.trace) p ((r.buf ++ a).length + j) r' := by
  have hmore := getPacket_of_cut hw hb ha
  have h16 := hw.length_le
  have hbpos := List.length_pos_iff.mpr hb
  have hapos := List.length_pos_iff.mpr ha
  rw [List.length_append] at h16
  match htr : r.trace with
  | [] => simp [htr, traceBytes, ha] at ht
  | .nomem :: t => exact (hlarge .nomem (by simp [htr])).elim
  | .buffer b :: t =>
    have hcont := hlarge (.buffer b) (by simp [htr])
    have hblen : 16 ≤ b.bytes.length := hcont.2
    rw [htr, traceBytes_buffer] at ht
    obtain ⟨c, hc, hrest⟩ : ∃ c, b.bytes = a ++ c ∧ rest = c ++ traceBytes t := by
      obtain ⟨x, hx, hy⟩ | ⟨c, hc, hy⟩ := List.append_eq_append_iff.mp ht
      · have hx0 : x = [] := List.length_eq_zero_iff.mp (by
          have := congrArg List.length hx
          rw [List.length_append] at this
          omega)
        exact ⟨[], by simp [hx, hx0], by simp [hy, hx0]⟩
      · exact ⟨c, hc, hy⟩
    have hclen : b.bytes.length = a.length + c.length := by rw [hc, List.length_append]
    set z := c.take (16 - r.buf.length - a.length) with hzdef
    have hjoin : r.buf ++ b.bytes.take (pktMaxSz - r.buf.length) = r.buf ++ a ++ z := by
      rw [hc, List.take_append, List.take_of_length_le (by simp [pktMaxSz]; omega),
        List.append_assoc]
      rfl
    obtain ⟨j, hj, hz, hg⟩ := getPacket_of_word (z := z) hw
    have hzlen : z.length = min (16 - r.buf.length - a.length) c.length := by
      rw [hzdef, List.length_take]
    have htakez : z.take j = c.take j := by
      rw [hzdef, List.take_take, min_eq_left (by omega)]
    have hjlen : (r.buf ++ a).length + j ≤ (r.buf ++ a ++ z).length := by
      rw [@List.length_append _ (r.buf ++ a) z]
      omega
    have hlen : ((r.buf ++ a ++ z).take ((r.buf ++ a).length + j)).length
        = (r.buf ++ a).length + j := by
      rw [List.length_take, min_eq_left hjlen]
    have hdrop : b.bytes.drop ((r.buf ++ a).length + j - r.buf.length) = c.drop j := by
      have hk : (r.buf ++ a).length + j - r.buf.length = a.length + j := by
        rw [List.length_append]
        omega
      rw [hk, hc, List.drop_append, List.drop_eq_nil_of_le (by omega)]
      simp
    refine ⟨j, { r with
      buf := (r.buf ++ a ++ z).take ((r.buf ++ a).length + j)
      nextBuf := some (c.drop j), trace := t, packet := p
      pktLen := (r.buf ++ a).length + j, pktStep := (r.buf ++ a).length + j }, ?_, ?_, ?_, ?_⟩
    · rw [hrest, List.length_append]
      omega
    · rw [hrest, List.take_append_of_le_length (by omega), ← htakez, hz]
    · have hmax : r.buf.length < pktMaxSz := by
        rw [pktMaxSz]
        omega
      have hge : ¬ (r.buf ++ a).length + j < r.buf.length := by
        rw [List.length_append]
        omega
      have hd := fun q => getData_of_continues (r := { r with packet := q }) htr hcont
      simp only [hn] at hd
      simp only [parsePass, hmore, hn, hmax, and_self, if_true, getSplitPacket, hd, hjoin, hg,
        if_neg hge, hdrop, accepted, hlen, foundPass]
    · refine ⟨⟨?_, ?_, ?_, ?_, fun _ => ?_⟩, rfl, rfl, rfl, ?_⟩
      · exact hlen.ge
      · intro x hx
        simp only [Option.some.injEq] at hx
        subst hx
        refine ⟨List.ne_nil_of_length_pos ?_, hlen.symm⟩
        rw [List.length_drop]
        omega
      · exact fun i hi => (hlarge i (by simp [htr, hi])).mono (by omega)
      · exact fun i hi => hlarge i (by simp [htr, List.mem_of_mem_tail hi])
      · exact fun i hi => hlarge i (by simp [htr, hi])
      · simp only [ahead, Option.getD_some, List.drop_eq_nil_of_le hlen.le, List.nil_append,
          traceBytes_buffer, hc]
        rw [List.append_assoc, ← List.append_assoc, ← List.drop_drop, List.drop_left,
          List.drop_append_of_le_length (by omega)]

theorem parsePass_word (hw : Word w p) (hb : r.buf ≠ []) (hn : r.nextBuf = none)
    (hlarge : ∀ i ∈ r.trace, TraceItem.Continues 16 i)
    (hs : r.buf ++ traceBytes r.trace = w ++ rest) :
    ∃ j r', j ≤ rest.length ∧ rest.take j = List.replicate j 0 ∧ r.parsePass = foundPass r' ∧
      Found r.pos (w ++ rest) p (w.length + j) r' := by
  have inside : ∀ c, r.buf = w ++ c → rest = c ++ traceBytes r.trace →
      ∃ j r', j ≤ rest.length ∧ rest.take j = List.replicate j 0 ∧ r.parsePass = foundPass r' ∧
        Found r.pos (w ++ rest) p (w.length + j) r' := by
    intro c hc hrest
    obtain ⟨j, r', hj, hz, hpass, hfound⟩ := parsePass_inside hw hn hlarge hc
    refine ⟨j, r', ?_, ?_, hpass, hs ▸ hfound⟩
    · rw [hrest, List.length_append]
      omega
    · rw [hrest, List.take_append_of_le_length hj, hz]
  obtain ⟨a, ha, ht⟩ | ⟨c, hc, hrest⟩ := List.append_eq_append_iff.mp hs
  · by_cases hnil : a = []
    · exact inside [] (by simp [ha, hnil]) (by simp [ht, hnil])
    · subst ha
      rw [← hs]
      exact parsePass_across hw hnil hb hn hlarge ht
  · exact inside c hc hrest

theorem nextPacketPass_word (hr : r.Streaming) (hw : Word w p) (ha : r.ahead = w ++ rest) :
    ∃ j r', j ≤ rest.length ∧ rest.take j = List.replicate j 0 ∧
      r.nextPacketPass = foundPass r' ∧
      Found (r.pos + r.pktStep) (w ++ rest) p (w.length + j) r' := by
  have hne : w ++ rest ≠ [] := by
    have := hw.length_pos
    intro h
    simp [List.append_eq_nil_iff.mp h] at this
  rw [nextPacketPass, if_neg (not_lt.mpr hr.safe)]
  by_cases hbuf : r.stepOver.buf = []
  · have hstep : r.buf.drop r.pktStep = [] := hbuf
    simp only [hbuf, if_true]
    cases hnext : r.nextBuf with
    | some b =>
      simp only [getNextData, stepOver, hnext]
      have hlarge := hr.headLarge (.inr (by simp [hnext]))
      exact parsePass_word (r := { r.stepOver with buf := b, nextBuf := none }) hw
        (hr.leftovers b hnext).1 rfl hlarge (by simpa [ahead, hstep, hnext, stepOver] using ha)
    | none =>
      rcases ht : r.trace with _ | ⟨_ | b, t⟩
      · simp [ahead, hstep, hnext, ht, traceBytes] at ha
        simp [ha] at hne
      · exact (hr.nonempty .nomem (by simp [ht])).elim
      · have hcont := hr.nonempty (.buffer b) (by simp [ht])
        have hlarge := hr.large
        rw [ht, List.tail_cons] at hlarge
        have hd := getData_of_continues (k := 0) (r := r.stepOver) ht hcont
        have hnd : r.stepOver.getNextData = r.stepOver.getData := by
          simp [getNextData, stepOver, hnext]
        simp only [hnd, hd]
        exact parsePass_word
          (r := { r.stepOver with pktStep := 0, buf := b.bytes, trace := t }) hw
          (List.ne_nil_of_length_pos hcont.2) hnext hlarge
          (by simpa [ahead, hstep, hnext, ht] using ha)
  · have hlarge := hr.headLarge (.inl (by simpa [stepOver] using hbuf))
    have hn : r.nextBuf = none := by
      by_contra hne
      obtain ⟨b, hb⟩ := Option.ne_none_iff_exists'.mp hne
      exact hbuf (by simp [stepOver, (hr.leftovers b hb).2])
    simp only [hbuf, if_false]
    exact parsePass_word (r := r.stepOver) hw hbuf hn hlarge
      (by simpa [ahead, hn, stepOver] using ha)

theorem nextPacketPass_end (hr : r.Streaming) (ha : r.ahead = []) :
    ∃ r', r.nextPacketPass = .leave (.nodata, r') := by
  simp only [ahead, List.append_eq_nil_iff] at ha
  obtain ⟨⟨hbuf, hnext⟩, ht⟩ := ha
  have hn : r.nextBuf = none := by
    by_contra hne
    obtain ⟨b, hb⟩ := Option.ne_none_iff_exists'.mp hne
    exact (hr.leftovers b hb).1 (by simpa [hb] using hnext)
  have htr : r.trace = [] := by
    match ht' : r.trace with
    | [] => rfl
    | .nomem :: t => exact (hr.nonempty .nomem (by simp [ht'])).elim
    | .buffer b :: t =>
      have hlen := (hr.nonempty (.buffer b) (by simp [ht'])).2
      rw [ht', traceBytes_buffer, List.append_eq_nil_iff] at ht
      simp [ht.1] at hlen
  have hstep : r.stepOver.buf = [] := hbuf
  rw [nextPacketPass, if_neg (not_lt.mpr hr.safe)]
  simp only [hstep, if_true]
  simp [getNextData, getData, stepOver, hn, htr]

def Expects (r : Reader) (E : List (Pkt × ℕ)) : Prop :=
  r.Streaming ∧ ∃ ws, (∀ wp ∈ ws, Word wp.1 wp.2) ∧ r.ahead = spell ws ∧
    place (r.pos + r.pktStep) ws = E

/-- Repeated fetches deliver the packets `E`, and then the end of the data. -/
def Delivers : Reader → List (Pkt × ℕ) → Prop
  | r, [] => r.getNextPacket.1 = .nodata
  | r, e :: E =>
    r.getNextPacket.1 = .ok ∧ r.getNextPacket.2.packet = e.1 ∧ r.getNextPacket.2.pos = e.2 ∧
      Delivers r.getNextPacket.2 E

def Answers (E : List (Pkt × ℕ)) (fr : Fetch × Reader) : Prop :=
  match E with
  | [] => fr.1 = .nodata
  | e :: E => fr.1 = .ok ∧ fr.2.packet = e.1 ∧ fr.2.pos = e.2 ∧ fr.2.Expects E

theorem nextPacketPass_expects (h : r.Expects E) :
    r.nextPacketPass.Satisfies (fun r' => r'.Expects E) (Answers E) := by
  obtain ⟨hr, ws, hws, ha, hE⟩ := h
  cases ws with
  | nil =>
    obtain ⟨r', hpass⟩ := nextPacketPass_end hr ha
    rw [hpass, ← hE]
    rfl
  | cons wp ws =>
    obtain ⟨w, p⟩ := wp
    have hw : Word w p := hws (w, p) (by simp)
    have ha' : r.ahead = w ++ spell ws := by simpa [spell] using ha
    obtain ⟨j, r', hj, hz, hpass, hf⟩ := nextPacketPass_word hr hw ha'
    obtain ⟨ws', hws', hsp, hpl⟩ := spell_drop_zeros j ws (r.pos + r.pktStep + w.length)
      (fun q hq => hws q (by simp [hq])) hj hz
    have hex : r'.Expects (place (r.pos + r.pktStep + w.length) ws) := by
      refine ⟨hf.streaming, ws', hws', ?_, ?_⟩
      · rw [hf.ahead, hsp, ← List.drop_drop, List.drop_left]
      · rw [hf.pos_eq, hf.step, ← Nat.add_assoc, hpl]
    rw [hpass, foundPass, hf.packet, ← hE, place]
    split_ifs with hpad
    · exact hex
    · exact ⟨rfl, hf.packet, hf.pos_eq, hex⟩

theorem getNextPacket_expects (h : r.Expects E) : Answers E r.getNextPacket := by
  refine loop_total (I := fun q => q.Expects E) unread ?_ _ _ (Nat.lt_succ_self _) ?_
  · intro q hq
    have hm := q.nextPacketPass_unread hq.1.safe
    have hq := nextPacketPass_expects hq
    cases hb : q.nextPacketPass with
    | leave fr => simpa [hb] using hq
    | again q' =>
      rw [hb] at hq hm
      exact ⟨hq, hm.2⟩
  · obtain ⟨hr, ws, hws, ha, hE⟩ := h
    exact ⟨⟨hr.safe, hr.leftovers, hr.nonempty, hr.large, hr.headLarge⟩, ws, hws, ha, hE⟩

theorem delivers_of_expects : ∀ {r : Reader}, r.Expects E → r.Delivers E := by
  induction E with
  | nil => exact fun h => getNextPacket_expects h
  | cons e E ih =>
    intro r h
    obtain ⟨hok, hp, hpos, hex⟩ := getNextPacket_expects h
    exact ⟨hok, hp, hpos, ih hex⟩

/-- A fresh reader in front of consecutive buffers. -/
def reading (bufs : List (List UInt8)) : Reader :=
  { trace := bufs.map fun b => .buffer { bytes := b } }

theorem expects_reading {bufs : List (List UInt8)} {ws : List (List UInt8 × Pkt)}
    (hws : ∀ wp ∈ ws, Word wp.1 wp.2) (hcut : bufs.flatten = spell ws)
    (hne : ∀ b ∈ bufs, b ≠ []) (hlarge : ∀ b ∈ bufs.tail, 16 ≤ b.length) :
    (reading bufs).Expects (place 0 ws) := by
  refine ⟨⟨le_rfl, ?_, ?_, ?_, ?_⟩, ws, hws, ?_, rfl⟩
  · intro b hb
    cases hb
  · intro i hi
    obtain ⟨b, hb, rfl⟩ := List.mem_map.mp hi
    exact ⟨rfl, List.length_pos_iff.mpr (hne b hb)⟩
  · intro i hi
    simp only [reading, ← List.map_tail] at hi
    obtain ⟨b, hb, rfl⟩ := List.mem_map.mp hi
    exact ⟨rfl, hlarge b hb⟩
  · simp [reading]
  · simp [ahead, reading, traceBytes, Function.comp_def, hcut]

/-- Wherever a stream of packets is cut into buffers, the reader delivers what it delivers from the
uncut stream. -/
theorem reading_cut_delivers (ws : List (List UInt8 × Pkt)) (bufs : List (List UInt8))
    (hws : ∀ wp ∈ ws, Word wp.1 wp.2) (hcut : bufs.flatten = spell ws)
    (hsize : ∀ b ∈ bufs, pktMaxSz ≤ b.length) :
    (reading bufs).Delivers (place 0 ws) ∧ (reading [spell ws]).Delivers (place 0 ws) := by
  constructor
  · refine delivers_of_expects (expects_reading hws hcut ?_ ?_)
    · intro b hb h
      simpa [h, pktMaxSz] using hsize b hb
    · exact fun b hb => hsize b (List.mem_of_mem_tail hb)
  · by_cases hnil : spell ws = []
    · have hws' : ws = [] := by
        cases ws with
        | nil => rfl
        | cons wp ws =>
          have := (hws wp (by simp)).length_pos
          simp [spell] at hnil
          simp [hnil.1] at this
      subst hws'
      rfl
    · exact delivers_of_expects (expects_reading hws (by simp) (by simpa using hnil) (by simp))

/-- A PSB, a PAD, a TSC and a TIP, cut one byte into the TSC. -/
theorem reading_cut_delivers_split_tsc :
    let tsc : List UInt8 := [0x19, 1, 2, 3, 4, 5, 6, 7]
    let tip : List UInt8 := [0xcd, 8, 0, 0, 0, 0, 0, 0, 0]
    let ws : List (List UInt8 × Pkt) :=
      [(psbStr, { type := .psb }), ([0], { type := .pad }),
       (tsc, { type := .tsc, payload := 0x7060504030201 }),
       (tip, { type := .tip, count := 6, payload := 8 })]
    (reading [(spell ws).take 18, (spell ws).drop 18]).Delivers (place 0 ws) ∧
      (reading [spell ws]).Delivers (place 0 ws) ∧ (place 0 ws).map Prod.snd = [0, 17, 25] :=
  let h := reading_cut_delivers
    [(psbStr, { type := .psb }), ([0], { type := .pad }),
     ([0x19, 1, 2, 3, 4, 5, 6, 7], { type := .tsc, payload := 0x7060504030201 }),
     ([0xcd, 8, 0, 0, 0, 0, 0, 0, 0], { type := .tip, count := 6, payload := 8 })]
    _ (by decide) (by simp) (by decide)
  ⟨h.1, h.2, by decide⟩

end Reader

end RPerf.Packets
