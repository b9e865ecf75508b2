import RPerf.Packets.Reader

/-!
# What a fetch consumes

Every packet fetched, and every failure other than the end of the data, takes the reader
strictly closer to the end of its trace.
-/

namespace RPerf.Packets

open Lib

variable {buf : Bytes} {len n : ℕ}

theorem doGetPacket_bounds {p : Pkt} (h : doGetPacket buf len = (.accept n, p)) :
    1 ≤ n ∧ n ≤ len ∧ n ≤ 16 := by
  have hlen : 1 ≤ len := by
    by_contra h0
    have : len = 0 := by omega
    subst this
    simp [doGetPacket] at h
  obtain ⟨hle, hr⟩ := doGetPacket_prefixCode.reads buf len n p hlen h
  exact ⟨hr.low, hle, hr.high⟩

theorem le_absorbPads (buf : Bytes) (len : ℕ) : ∀ fuel n, n ≤ absorbPads buf len fuel n := by
  intro fuel
  induction fuel with
  | zero => intro n; exact le_rfl
  | succ fuel ih =>
    intro n
    rw [absorbPads]
    split_ifs
    · exact (Nat.le_succ n).trans (ih (n + 1))
    · exact le_rfl

theorem absorbPads_le (buf : Bytes) (len : ℕ) :
    ∀ fuel n, n ≤ len → absorbPads buf len fuel n ≤ len := by
  intro fuel
  induction fuel with
  | zero => intro n hn; exact hn
  | succ fuel ih =>
    intro n hn
    rw [absorbPads]
    split_ifs with h
    · exact ih (n + 1) (by omega)
    · exact hn

theorem getPacket_eq (buf : Bytes) (len : ℕ) :
    getPacket buf len =
      match (doGetPacket buf len).1 with
      | .accept n => (.accept (absorbPads buf len 8 n), (doGetPacket buf len).2)
      | s => (s, (doGetPacket buf len).2) := by
  unfold getPacket
  rcases doGetPacket buf len with ⟨_ | _ | n, p⟩ <;> rfl

theorem getPacket_accept {p : Pkt} (h : getPacket buf len = (.accept n, p)) :
    ∃ m, doGetPacket buf len = (.accept m, p) ∧ n = absorbPads buf len 8 m := by
  rw [getPacket_eq] at h
  rcases hd : doGetPacket buf len with ⟨_ | _ | m, q⟩ <;> rw [hd] at h <;>
    simp only [Prod.mk.injEq, Scan.accept.injEq, reduceCtorEq, false_and] at h
  exact ⟨m, by rw [h.2], h.1.symm⟩

theorem getPacket_bounds (h : (getPacket buf len).1 = .accept n) : 1 ≤ n ∧ n ≤ len := by
  obtain ⟨m, hd, rfl⟩ := getPacket_accept (p := (getPacket buf len).2) (by rw [← h])
  obtain ⟨h1, hle, _⟩ := doGetPacket_bounds hd
  exact ⟨h1.trans (le_absorbPads buf len 8 m), absorbPads_le buf len 8 m hle⟩

namespace Reader

variable (r : Reader)

def Safe : Prop := r.pktStep ≤ r.buf.length

@[simp] theorem traceSize_cons (i : TraceItem) (t : List TraceItem) :
    traceSize (i :: t) = i.size + traceSize t := by
  simp [traceSize]

theorem left_stepOver : r.stepOver.left = r.unread := by
  simp [stepOver, left, unread]

theorem getData_cases :
    (∃ t, traceSize t ≤ traceSize r.trace ∧
      r.getData = (.nodata, { r with pktStep := 0, buf := [], trace := t })) ∨
    (∃ t, r.trace = .nomem :: t ∧ r.getData = (.nomem, { r with pktStep := 0, trace := t })) ∨
    ∃ b t, r.trace = .buffer b :: t ∧ b.bytes ≠ [] ∧
      r.getData = (if b.consecutive then .ok else .nolink b.refTimestamp b.traceNr,
        { r with pktStep := 0, buf := b.bytes, trace := t }) := by
  unfold getData
  split
  · next h => exact .inl ⟨[], by simp [traceSize], by rw [← h]⟩
  · next t h => exact .inr (.inl ⟨t, h, rfl⟩)
  · next b t h =>
    by_cases hb : b.bytes = []
    · refine .inl ⟨t, ?_, by simp [hb]⟩
      rw [h, traceSize_cons]
      omega
    · refine .inr (.inr ⟨b, t, h, hb, ?_⟩)
      by_cases hc : b.consecutive <;> simp [hb, hc]

def Advances (f : Fetch) (u v : ℕ) : Prop := u < v ∨ f = .nodata ∧ u ≤ v

theorem getSplitPacket_cases (hn : r.nextBuf = none) :
    (r.getSplitPacket.1 = .ok ∧ r.getSplitPacket.2.buf ≠ [] ∧
      r.getSplitPacket.2.left ≤ r.left) ∨
    (r.getSplitPacket.1 = .bad ∧ r.getSplitPacket.2.unread ≤ r.left ∧
      (r.buf ≠ [] → r.getSplitPacket.2.unread < r.left)) ∨
    (r.getSplitPacket.1 ≠ .overrun ∧ r.getSplitPacket.1 ≠ .ok ∧
      Advances r.getSplitPacket.1 r.getSplitPacket.2.unread r.left) := by
  obtain ⟨t, ht, hd⟩ | ⟨t, ht, hd⟩ | ⟨b, t, ht, hb, hd⟩ := r.getData_cases
  · refine .inr (.inr ?_)
    simp only [getSplitPacket, hd, ne_eq, reduceCtorEq, not_false_iff, true_and]
    exact .inr ⟨rfl, by simp [unread, left]; omega⟩
  · refine .inr (.inr ?_)
    simp only [getSplitPacket, hd, ne_eq, reduceCtorEq, not_false_iff, true_and]
    exact .inl (by simp [unread, left, ht, TraceItem.size])
  · have hleft : r.left = r.buf.length + (b.bytes.length + 1 + traceSize t) := by
      simp [left, hn, nextSize, ht, TraceItem.size]
    have hpos : 0 < b.bytes.length := List.length_pos_iff.mpr hb
    by_cases hc : b.consecutive
    · rw [if_pos hc] at hd
      simp only [getSplitPacket, hd]
      split
      · next n hgot =>
        have hle := (getPacket_bounds hgot).2
        simp only [List.length_append, List.length_take] at hle
        split_ifs with hlt
        · refine .inr (.inl ⟨rfl, ?_, ?_⟩) <;>
            simp only [badPacket, unread, nextSize, hleft] <;> omega
        · refine .inl ⟨rfl, ?_, ?_⟩
          · have h1 := (getPacket_bounds hgot).1
            have hr : r.buf ≠ [] ∨ b.bytes ≠ [] := .inr hb
            simp only [ne_eq, List.take_eq_nil_iff, List.append_eq_nil_iff, not_or]
            refine ⟨by omega, fun h => ?_⟩
            simp [h.1, pktMaxSz] at h
            exact hb h
          · simp only [left, nextSize, hn, ht, traceSize_cons, TraceItem.size, List.length_drop,
              List.length_take, List.length_append]
            omega
      · refine .inr (.inl ⟨rfl, ?_, ?_⟩)
        · simp only [badPacket, unread, nextSize, hleft]
          omega
        · intro hbuf
          have := List.length_pos_iff.mpr hbuf
          simp only [badPacket, unread, nextSize, hleft]
          omega
    · rw [if_neg hc] at hd
      refine .inr (.inr ?_)
      simp only [getSplitPacket, hd, ne_eq, reduceCtorEq, not_false_iff, true_and]
      refine .inl ?_
      simp only [unread, hn, nextSize, hleft]
      omega

theorem accepted_satisfies {r : Reader} {n : ℕ} {I : Reader → Prop}
    {Q : Fetch × Reader → Prop} (hI : I { r with pktLen := n, pktStep := n })
    (hQ : Q (.ok, { r with pktLen := n, pktStep := n })) :
    (r.accepted n).Satisfies I Q := by
  simp only [accepted]
  split_ifs
  · exact hI
  · exact hQ

theorem badPacket_unread :
    r.badPacket.2.unread ≤ r.left ∧ (r.buf ≠ [] → r.badPacket.2.unread < r.left) := by
  simp only [badPacket, unread, left]
  refine ⟨by omega, fun hb => ?_⟩
  have := List.length_pos_iff.mpr hb
  omega

theorem parsePass_unread :
    r.parsePass.Satisfies (fun r' => r'.Safe ∧ r'.unread < r.left) fun fr =>
      fr.1 ≠ .overrun ∧ (Advances fr.1 fr.2.unread r.left ∨
        fr.1 = .bad ∧ r.buf = [] ∧ fr.2.unread ≤ r.left) := by
  have hbad : ∀ p : Pkt, { r with packet := p }.badPacket.1 ≠ .overrun ∧
      (Advances { r with packet := p }.badPacket.1 { r with packet := p }.badPacket.2.unread
        r.left ∨
        { r with packet := p }.badPacket.1 = .bad ∧ r.buf = [] ∧
          { r with packet := p }.badPacket.2.unread ≤ r.left) := by
    intro p
    obtain ⟨hle, hlt⟩ := { r with packet := p }.badPacket_unread
    refine ⟨by simp [badPacket], ?_⟩
    by_cases hb : r.buf = []
    · exact .inr ⟨rfl, hb, hle⟩
    · exact .inl (.inl (hlt hb))
  simp only [parsePass]
  split
  · next n hgot =>
    obtain ⟨h1, hn⟩ := getPacket_bounds hgot
    apply accepted_satisfies
    · refine ⟨hn, ?_⟩
      simp only [unread, left]
      omega
    · refine ⟨by simp, .inl (.inl ?_)⟩
      simp only [unread, left]
      omega
  · exact hbad _
  · split_ifs with hsplit
    · have hcases := { r with packet :=
        (getPacket (bytesOf r.buf) r.buf.length).2 }.getSplitPacket_cases hsplit.2
      split
      · next r' heq =>
        simp only [heq, ne_eq, reduceCtorEq, false_and, not_true_eq_false, and_false, or_false,
          true_and] at hcases
        obtain ⟨hne, hle⟩ := hcases
        have hpos := List.length_pos_iff.mpr hne
        simp only [left] at hle
        apply accepted_satisfies
        · refine ⟨le_rfl, ?_⟩
          simp only [unread, left, Nat.sub_self, Nat.zero_add]
          omega
        · refine ⟨by simp, .inl (.inl ?_)⟩
          simp only [unread, left, Nat.sub_self, Nat.zero_add]
          omega
      · next f r' hne heq =>
        simp only [heq] at hcases
        simp only [Pass.satisfies_leave]
        obtain ⟨hok, _⟩ | ⟨hf, hle, hlt⟩ | ⟨hov, _, hadv⟩ := hcases
        · exact absurd hok (by simpa using hne)
        · refine ⟨by simp [hf], ?_⟩
          by_cases hb : r.buf = []
          · exact .inr ⟨hf, hb, hle⟩
          · exact .inl (.inl (hlt hb))
        · exact ⟨hov, .inl hadv⟩
    · exact hbad _

theorem getNextData_cases :
    (∃ b, r.nextBuf = some b ∧ r.getNextData = (.ok, { r with buf := b, nextBuf := none })) ∨
    (∃ t, r.nextBuf = none ∧ traceSize t ≤ traceSize r.trace ∧
      r.getNextData = (.nodata, { r with pktStep := 0, buf := [], trace := t })) ∨
    (∃ t, r.nextBuf = none ∧ r.trace = .nomem :: t ∧
      r.getNextData = (.nomem, { r with pktStep := 0, trace := t })) ∨
    ∃ b t, r.nextBuf = none ∧ r.trace = .buffer b :: t ∧ b.bytes ≠ [] ∧
      r.getNextData = (if b.consecutive then .ok else .nolink b.refTimestamp b.traceNr,
        { r with pktStep := 0, buf := b.bytes, trace := t }) := by
  unfold getNextData
  cases hn : r.nextBuf with
  | some b => exact .inl ⟨b, rfl, rfl⟩
  | none =>
    obtain ⟨t, ht, hd⟩ | ⟨t, ht, hd⟩ | ⟨b, t, ht, hb, hd⟩ := r.getData_cases
    · exact .inr (.inl ⟨t, rfl, ht, by rw [hd, hn]⟩)
    · exact .inr (.inr (.inl ⟨t, rfl, ht, by rw [hd, hn]⟩))
    · exact .inr (.inr (.inr ⟨b, t, rfl, ht, hb, by rw [hd, hn]⟩))

theorem getNextData_left (hbuf : r.buf = []) :
    (r.getNextData.1 = .ok ∧ r.getNextData.2.left < r.left) ∨
    (r.getNextData.1 ≠ .ok ∧ r.getNextData.1 ≠ .overrun ∧ r.getNextData.1 ≠ .bad ∧
      Advances r.getNextData.1 r.getNextData.2.unread r.left ∧ r.getNextData.2.pktStep = 0) := by
  obtain ⟨b, hn, hd⟩ | ⟨t, _, ht, hd⟩ | ⟨t, hn, ht, hd⟩ | ⟨b, t, hn, ht, hb, hd⟩ :=
    r.getNextData_cases <;> rw [hd]
  · refine .inl ⟨rfl, ?_⟩
    simp [left, hn, hbuf, nextSize]
  · refine .inr ⟨by simp, by simp, by simp, .inr ⟨rfl, ?_⟩, rfl⟩
    simp only [unread, left, hbuf, List.length_nil]
    omega
  · refine .inr ⟨by simp, by simp, by simp, .inl ?_, rfl⟩
    simp only [unread, left, ht, traceSize_cons, TraceItem.size]
    omega
  · have hlt : b.bytes.length + traceSize t < r.left := by
      simp only [left, ht, traceSize_cons, TraceItem.size]
      omega
    by_cases hc : b.consecutive
    · refine .inl ⟨by simp [hc], ?_⟩
      simpa [left, hn, nextSize] using hlt
    · refine .inr ⟨by simp [hc], by simp [hc], by simp [hc], .inl ?_, rfl⟩
      simpa [unread, hn, nextSize] using hlt

theorem Advances.trans_lt {f : Fetch} {u v w : ℕ} (h : Advances f u v) (hvw : v < w) :
    Advances f u w := by
  obtain h | ⟨_, h⟩ := h
  · exact .inl (by omega)
  · exact .inl (by omega)

theorem nextPacketPass_unread (hs : r.Safe) :
    r.nextPacketPass.Satisfies (fun r' => r'.Safe ∧ r'.unread < r.unread) fun fr =>
      fr.1 ≠ .overrun ∧ Advances fr.1 fr.2.unread r.unread := by
  rw [← left_stepOver]
  simp only [nextPacketPass]
  rw [if_neg (not_lt.mpr hs)]
  by_cases hbuf : r.stepOver.buf = []
  · rw [if_pos hbuf]
    have hleft := r.stepOver.getNextData_left hbuf
    split
    · next q hq =>
      simp only [hq, ne_eq, not_true_eq_false, false_and, or_false, true_and] at hleft
      refine q.parsePass_unread.mono ?_ ?_
      · exact fun r' h => ⟨h.1, h.2.trans hleft⟩
      · rintro fr ⟨hov, hadv | ⟨_, _, hle⟩⟩
        · exact ⟨hov, hadv.trans_lt hleft⟩
        · exact ⟨hov, .inl (by omega)⟩
    · next f q hne hq =>
      simp only [hq] at hleft
      obtain ⟨hok, _⟩ | ⟨_, hov, _, hadv, _⟩ := hleft
      · exact absurd hok (by simpa using hne)
      · exact ⟨hov, hadv⟩
  · rw [if_neg hbuf]
    refine r.stepOver.parsePass_unread.mono (fun r' h => h) ?_
    rintro fr ⟨hov, hadv | ⟨_, hnil, _⟩⟩
    · exact ⟨hov, hadv⟩
    · exact absurd hnil hbuf

theorem getNextPacket_of_not_safe (hs : ¬ r.Safe) :
    r.getNextPacket = (.overrun, { r with lastPacketType := r.packet.type }) := by
  simp only [getNextPacket]
  apply loop_of_leave
  rw [nextPacketPass, if_pos (not_le.mp hs)]

theorem getNextPacket_advances (hs : r.Safe) :
    r.getNextPacket.1 ≠ .overrun ∧
      Advances r.getNextPacket.1 r.getNextPacket.2.unread r.unread := by
  let s : Reader := { r with lastPacketType := r.packet.type }
  refine loop_total (I := fun q => q.Safe ∧ q.unread ≤ r.unread)
    (Q := fun fr : Fetch × Reader => fr.1 ≠ .overrun ∧ Advances fr.1 fr.2.unread r.unread)
    unread ?_ (s.unread + 1) s (Nat.lt_succ_self _) ⟨hs, le_rfl⟩
  rintro q ⟨hq, hle⟩
  refine (q.nextPacketPass_unread hq).mono ?_ ?_
  · exact fun q' h => ⟨⟨h.1, h.2.le.trans hle⟩, h.2⟩
  · rintro fr ⟨hov, hlt | ⟨hf, hle'⟩⟩
    · exact ⟨hov, .inl (hlt.trans_le hle)⟩
    · exact ⟨hov, .inr ⟨hf, hle'.trans hle⟩⟩

theorem getNextPacket_unread_le : r.getNextPacket.2.unread ≤ r.unread := by
  by_cases hs : r.Safe
  · obtain ⟨_, hlt | ⟨_, hle⟩⟩ := r.getNextPacket_advances hs
    · exact hlt.le
    · exact hle
  · rw [r.getNextPacket_of_not_safe hs]
    exact le_rfl

theorem getNextPacket_ok_unread {r r' : Reader} (h : r.getNextPacket = (.ok, r')) :
    r'.unread < r.unread := by
  by_cases hs : r.Safe
  · obtain ⟨_, hlt | ⟨hf, _⟩⟩ := r.getNextPacket_advances hs
    · simpa [h] using hlt
    · simp [h] at hf
  · rw [r.getNextPacket_of_not_safe hs] at h
    cases h

theorem accepted_left (n : ℕ) :
    (r.accepted n).Satisfies (fun _ => True) fun fr => fr.2.left = r.left := by
  apply accepted_satisfies <;> simp [left]

theorem parsePass_left :
    r.parsePass.Satisfies (fun _ => True) fun fr => fr.1 = .ok → fr.2.left ≤ r.left := by
  have haccepted : ∀ (q : Reader) n, q.left ≤ r.left →
      (q.accepted n).Satisfies (fun _ => True) fun fr => fr.1 = .ok → fr.2.left ≤ r.left :=
    fun q n hq => (q.accepted_left n).mono (fun _ h => h) fun fr h _ => h.trans_le hq
  simp only [parsePass]
  split
  · exact haccepted _ _ le_rfl
  · simp [badPacket]
  · split_ifs with hsplit
    · have hcases := { r with packet :=
        (getPacket (bytesOf r.buf) r.buf.length).2 }.getSplitPacket_cases hsplit.2
      split
      · next r' heq =>
        simp only [heq, ne_eq, reduceCtorEq, false_and, not_true_eq_false, and_false, or_false,
          true_and] at hcases
        exact haccepted _ _ hcases.2
      · next f r' hne _ => exact fun hf => absurd hf (by simpa using hne)
    · simp [badPacket]

theorem nextPacketPass_left :
    r.nextPacketPass.Satisfies (fun _ => True) fun fr => fr.1 = .ok → fr.2.left ≤ r.unread := by
  rw [← left_stepOver]
  simp only [nextPacketPass]
  split_ifs with hs hbuf
  · simp
  · have hleft := r.stepOver.getNextData_left hbuf
    split
    · next q hq =>
      simp only [hq, ne_eq, not_true_eq_false, false_and, or_false, true_and] at hleft
      exact q.parsePass_left.mono (fun _ h => h) fun fr h hok => (h hok).trans hleft.le
    · next f q hne hq => exact fun hf => absurd hf (by simpa using hne)
  · exact r.stepOver.parsePass_left

theorem getNextPacket_ok_left {r r' : Reader} (h : r.getNextPacket = (.ok, r')) :
    r'.left ≤ r.unread := by
  have key : r.getNextPacket.1 = .ok → r.getNextPacket.2.left ≤ r.unread := by
    refine loop_invariant (I := fun q : Reader => q.unread ≤ r.unread)
      (Q := fun fr : Fetch × Reader => fr.1 = .ok → fr.2.left ≤ r.unread) ?_ (by simp) _ _ le_rfl
    intro q hq
    have hl := q.nextPacketPass_left
    by_cases hs : q.Safe
    · have hu := q.nextPacketPass_unread hs
      cases hp : q.nextPacketPass with
      | leave fr =>
        rw [hp] at hl
        exact fun hok => (hl hok).trans hq
      | again q' =>
        rw [hp] at hu
        exact hu.2.le.trans hq
    · rw [nextPacketPass, if_pos (not_le.mp hs)]
      simp
  rw [h] at key
  exact key rfl

theorem getData_lastPacketType : r.getData.2.lastPacketType = r.lastPacketType := by
  unfold getData
  split
  · rfl
  · rfl
  · simp only
    split_ifs <;> rfl

theorem getNextData_lastPacketType : r.getNextData.2.lastPacketType = r.lastPacketType := by
  unfold getNextData
  split
  · exact r.getData_lastPacketType
  · rfl

theorem getSplitPacket_lastPacketType : r.getSplitPacket.2.lastPacketType = r.lastPacketType := by
  have hdata := r.getData_lastPacketType
  unfold getSplitPacket
  split <;> rename_i heq <;> rw [heq] at hdata
  · simp only
    split
    · split_ifs <;> exact hdata
    · exact hdata
  · exact hdata

theorem getNextPacket_lastPacketType : r.getNextPacket.2.lastPacketType = r.packet.type := by
  have haccepted : ∀ (q : Reader) (n : ℕ), q.lastPacketType = r.packet.type →
      (q.accepted n).Satisfies (fun q' => q'.lastPacketType = r.packet.type)
        fun fr => fr.2.lastPacketType = r.packet.type := by
    intro q n hq
    simp only [accepted]
    split_ifs <;> exact hq
  have hparse : ∀ q : Reader, q.lastPacketType = r.packet.type →
      q.parsePass.Satisfies (fun q' => q'.lastPacketType = r.packet.type)
        fun fr => fr.2.lastPacketType = r.packet.type := by
    intro q hq
    simp only [parsePass]
    split
    · exact haccepted _ _ hq
    · exact hq
    · split_ifs
      · have hsplit := getSplitPacket_lastPacketType
          { q with packet := (getPacket (bytesOf q.buf) q.buf.length).2 }
        split <;> rename_i heq <;> rw [heq] at hsplit
        · exact haccepted _ _ (hsplit.trans hq)
        · exact hsplit.trans hq
      · exact hq
  apply loop_invariant (I := fun q : Reader => q.lastPacketType = r.packet.type)
    (Q := fun fr : Fetch × Reader => fr.2.lastPacketType = r.packet.type) _ (fun _ hq => hq) _ _ rfl
  intro q hq
  have hdata := q.stepOver.getNextData_lastPacketType
  simp only [nextPacketPass]
  split_ifs
  · exact hq
  · split <;> rename_i heq <;> rw [heq] at hdata
    · exact hparse _ (hdata.trans hq)
    · exact hdata.trans hq
  · exact hparse _ hq

end Reader

end RPerf.Packets
