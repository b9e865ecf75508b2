import RPerf.X86.Decoder

/-!
# Stages with more bytes in front of them

A stage that succeeds has read no byte behind the end of the buffer, so that it does the
same where the end lies further behind.
-/

namespace RPerf.X86

open Lib Inat

theorem Inat.Table.get_cases (table : Table) (opcode : UInt8) : table.get opcode = 0 ∨
    ∃ row ∈ table, table.get opcode = row.1 ∧ ∃ r ∈ row.2, r.1 ≤ opcode ∧ opcode ≤ r.2 := by
  rw [Table.get]
  cases hfind : table.find? fun row => row.2.any fun r => r.1 ≤ opcode ∧ opcode ≤ r.2 with
  | none => exact .inl rfl
  | some row =>
    refine .inr ⟨row, List.mem_of_find?_eq_some hfind, rfl, ?_⟩
    simpa using List.find?_some hfind

variable {table : Table}

theorem Inat.Table.get_of_rows {P : Attr → Prop} (h0 : P 0) (h : ∀ row ∈ table, P row.1)
    (opcode : UInt8) : P (table.get opcode) := by
  rcases table.get_cases opcode with hget | ⟨row, hrow, hget, -⟩
  · rw [hget]
    exact h0
  · rw [hget]
    exact h row hrow

theorem Inat.Table.eq_of_row {P : Attr → Bool} {b opcode : UInt8} (h0 : P 0 = false)
    (h : ∀ row ∈ table, P row.1 → row.2 = [(b, b)]) (hopcode : P (table.get opcode)) :
    opcode = b := by
  rcases table.get_cases opcode with hget | ⟨row, hrow, hget, r, hr, hlow, hhigh⟩
  · rw [hget, h0] at hopcode
    cases hopcode
  · rw [hget] at hopcode
    rw [h row hrow hopcode, List.mem_singleton] at hr
    rw [hr] at hlow hhigh
    exact UInt8.le_antisymm hhigh hlow

def SecondOk (attr : Attr) : Prop :=
  hasSecondImmediate attr → immediateSize attr = immWord ∧ ¬ isGroup attr

instance (attr : Attr) : Decidable (SecondOk attr) := inferInstanceAs (Decidable (_ → _))

theorem secondOk_zero : SecondOk 0 := by decide

theorem secondOk_opcode (opcode : UInt8) : SecondOk (getOpcodeAttribute opcode) :=
  Table.get_of_rows secondOk_zero (by decide +kernel) opcode

theorem secondOk_escapeTables {n lpfx : ℕ} (h : escapeTables n lpfx = some table) (op : UInt8) :
    SecondOk (table.get op) := by
  apply Table.get_of_rows secondOk_zero
  unfold escapeTables at h
  split at h <;> cases h <;> decide +kernel

theorem secondOk_escape (op : UInt8) (lpfx : ℕ) (attr : Attr) :
    SecondOk (getEscapeAttribute op lpfx attr) := by
  rw [getEscapeAttribute]
  split
  · exact secondOk_zero
  · split
    · split
      · exact secondOk_zero
      · exact secondOk_escapeTables ‹_› op
    · exact secondOk_escapeTables ‹_› op

theorem secondOk_avx (op : UInt8) (m p : ℕ) : SecondOk (getAvxAttribute op m p) := by
  rw [getAvxAttribute]
  split
  · exact secondOk_zero
  · split
    · exact secondOk_zero
    · split
      · split
        · exact secondOk_zero
        · exact secondOk_escapeTables ‹_› op
      · exact secondOk_escapeTables ‹_› op

theorem groupTables_not_second {n lpfx : ℕ} (h : groupTables n lpfx = some table) (opcode : UInt8) :
    (table.get opcode).testBit 16 = false := by
  apply Table.get_of_rows (P := fun attr => attr.testBit 16 = false) rfl
  unfold groupTables at h
  split at h <;> cases h <;> decide +kernel

theorem secondOk_group {attr : Attr} (h : SecondOk attr) (hgrp : isGroup attr) (mod : UInt8)
    (lpfx : ℕ) : SecondOk (getGroupAttribute mod lpfx attr) := by
  have hattr : attr.testBit 16 = false := by
    by_contra hsec
    exact (h (Bool.not_eq_false _ ▸ hsec)).2 hgrp
  have hcommon : (groupCommonAttribute attr).testBit 16 = false := by
    rw [groupCommonAttribute, Nat.testBit_and, hattr, Bool.false_and]
  have hnone : (getGroupAttribute mod lpfx attr).testBit 16 = false := by
    rw [getGroupAttribute]
    split
    · exact hcommon
    · split
      · split
        · exact hcommon
        · rw [Nat.testBit_or, hcommon, Bool.or_false]
          exact groupTables_not_second ‹_› _
      · rw [Nat.testBit_or, hcommon, Bool.or_false]
        exact groupTables_not_second ‹_› _
  intro hsec
  rw [hasSecondImmediate, hnone] at hsec
  cases hsec

theorem vex_opcode (b : UInt8) : isVexPrefix (getOpcodeAttribute b) →
    hasModrm (getOpcodeAttribute b) ∧ ¬ isEscape (getOpcodeAttribute b) ∧
      ¬ mustVex (getOpcodeAttribute b) :=
  Table.get_of_rows
    (P := fun attr => isVexPrefix attr → hasModrm attr ∧ ¬ isEscape attr ∧ ¬ mustVex attr)
    (by decide) (by decide +kernel) b

section Vex

variable {buf : Memory} {e : ℕ} {s : Insn}

def Insn.NoVex (s : Insn) : Prop := s.vexPrefix.value = .replicate 4 0

theorem Insn.NoVex.hasVex (h : s.NoVex) : s.hasVex = false := by
  rw [Insn.hasVex, decide_eq_false_iff_not, not_not]
  exact h

theorem setLastPrefix_noVex {nb : ℕ} {lb : UInt8} (h : s.NoVex) :
    (s.setLastPrefix nb lb).NoVex := by
  rw [Insn.setLastPrefix]
  split <;> exact h

theorem setLastPrefix_nextByte (nb : ℕ) (lb : UInt8) (s : Insn) :
    (s.setLastPrefix nb lb).nextByte = s.nextByte := by
  rw [Insn.setLastPrefix]
  split <;> rfl

theorem vex3_byte {b : UInt8} (h : isVex3Prefix (getOpcodeAttribute b)) : b = 0xc4 :=
  Table.eq_of_row (P := isVex3Prefix) rfl (by decide +kernel) h

theorem evex_byte {b : UInt8} (h : isEvexPrefix (getOpcodeAttribute b)) : b = 0x62 :=
  Table.eq_of_row (P := isEvexPrefix) rfl (by decide +kernel) h

def EndsInVex (buf : Memory) (e p : ℕ) : Prop :=
  p + 2 ≤ e ∧ (buf p = 0xc4 ∧ e < p + 3 ∨ buf p = 0x62 ∧ e < p + 4)

inductive Stuck (buf : Memory) (e : ℕ) (s : Insn) : Prop
  | atEnd (hvex : s.NoVex) (hle : e ≤ s.nextByte)
  | atFirst (hvex : s.NoVex) (heq : s.nextByte + 1 = e)
      (hbyte : isVexPrefix (getOpcodeAttribute (buf s.nextByte)))
  | inside (hvex : s.hasVex) (hends : EndsInVex buf e s.nextByte)

structure InVex (buf : Memory) (e : ℕ) (s : Insn) : Prop where
  first : s.vexPrefix.value.get 0 = buf s.nextByte
  pos : buf s.nextByte ≠ 0
  le : s.nextByte + 2 ≤ e

theorem InVex.hasVex (h : InVex buf e s) : s.hasVex := by
  rw [Insn.hasVex, decide_eq_true_iff]
  intro heq
  have hfirst := h.first
  rw [heq] at hfirst
  exact h.pos hfirst.symm

theorem InVex.setVexByte (h : InVex buf e s) {i : Fin 4} (hi : i ≠ 0) (b : UInt8) :
    InVex buf e (s.setVexByte i b) := by
  refine ⟨?_, h.pos, h.le⟩
  have hne : i.val ≠ 0 := fun h0 => hi (Fin.ext h0)
  exact (Vector.getElem_set_ne i.isLt (Nat.zero_lt_succ 3) hne).trans h.first

theorem inVex_of_two {b b2 : UInt8} (hb : b = buf s.nextByte)
    (hvex : isVexPrefix (getOpcodeAttribute b)) (hle : s.nextByte + 2 ≤ e) :
    InVex buf e ((s.setVexByte 0 b).setVexByte 1 b2) := by
  have hone : InVex buf e (s.setVexByte 0 b) := by
    refine ⟨?_, ?_, hle⟩
    · rw [Insn.setVexByte, ← hb]
      exact Vector.getElem_set_self _
    · intro h0
      have hb0 : b = 0 := hb.trans h0
      rw [hb0] at hvex
      exact absurd hvex (by decide)
  exact hone.setVexByte (by decide) b2

end Vex

section Extends

variable {buf : Memory} {e e' : ℕ} (he : e ≤ e')

open Stage

include he

theorem extends_peek {I : Insn → Prop} (n : ℕ) :
    Extends I (peekNbyteNext buf e n) (peekNbyteNext buf e' n)
      (fun b s => I s ∧ b = buf (s.nextByte + n) ∧ s.nextByte + 1 + n ≤ e)
      (fun s => I s ∧ e < s.nextByte + 1 + n) := by
  intro s hs
  by_cases hle : s.nextByte + 1 + n ≤ e
  · refine .inl ⟨buf (s.nextByte + n), s, ?_, ?_, hs, rfl, hle⟩
    · rw [peekNbyteNext, eval_get_bind, if_pos hle, eval_pure]
    · rw [peekNbyteNext, eval_get_bind, if_pos (hle.trans he), eval_pure]
  · refine .inr ⟨s, ?_, hs, not_le.mp hle⟩
    rw [peekNbyteNext, eval_get_bind, if_neg hle, eval_failure]

theorem extends_getNext {I J E : Insn → Prop} {size : ℕ}
    (hJ : ∀ s, I s → s.nextByte + size ≤ e → J (s.skip size)) (hE : ∀ s, I s → E s) :
    Extends I (getNext buf e size) (getNext buf e' size) (fun _ => J) E := by
  refine .get_bind fun s hs => ?_
  by_cases hle : s.nextByte + size ≤ e
  · rw [if_pos hle, if_pos (hle.trans he)]
    refine .bind (K := fun _ => J) (.modify ?_) fun _ => .pure fun _ h => h
    rintro t rfl
    exact hJ t hs hle
  · rw [if_neg hle]
    refine .failure ?_
    rintro t rfl
    exact hE t hs

theorem extends_peekNext {I : Insn → Prop} (hI : ∀ s, I s → s.NoVex) :
    Extends I (peekNext buf e) (peekNext buf e')
      (fun b s => I s ∧ b = buf s.nextByte ∧ s.nextByte + 1 ≤ e) (Stuck buf e) := by
  refine (extends_peek he 0).mono (fun _ hs => hs) (fun _ _ hs => hs) ?_
  rintro s ⟨hs, hlt⟩
  exact .atEnd (hI s hs) (by omega)

theorem extends_legacyPrefixes {left left' : ℕ} (hleft : left ≤ left') (nb : ℕ) (lb : UInt8) :
    Extends (fun s => s.NoVex ∧ s.nextByte ≤ e ∧ e ≤ s.nextByte + left)
      (legacyPrefixes buf e left nb lb) (legacyPrefixes buf e' left' nb lb)
      (fun _ s => s.NoVex ∧ s.nextByte ≤ e) (Stuck buf e) := by
  induction left generalizing left' nb lb with
  | zero => exact .failure fun s hs => .atEnd hs.1 hs.2.2
  | succ left ih =>
    obtain ⟨left', rfl⟩ : ∃ l, left' = l + 1 := ⟨left' - 1, by omega⟩
    have hleft : left ≤ left' := by omega
    rw [legacyPrefixes, legacyPrefixes]
    refine .bind (extends_peekNext he fun _ hs => hs.1) fun b => ?_
    refine .ite (fun _ => .read fun s _ => ?_) fun _ => .pure fun s hs => ⟨hs.1.1, hs.1.2.1⟩
    refine .ite (fun _ => ?_) fun _ => .ite (fun _ => ?_) fun _ => ?_
    · refine .pre (.modify_bind (ih hleft nb b)) ?_
      rintro s ⟨⟨hs, -, hle⟩, -, hlt⟩
      exact ⟨hs, by simp only [Insn.skipPrefix]; omega⟩
    · exact .pure fun s hs => ⟨hs.1.1, hs.1.2.1⟩
    · refine .pre (.modify_bind (.modify_bind (ih hleft (nb + 1) b))) ?_
      rintro s ⟨⟨hs, -, hle⟩, -, hlt⟩
      exact ⟨hs, by simp only [Insn.skipPrefix, Insn.addPrefix]; omega⟩

theorem extends_rexPrefix :
    Extends (fun s => s.NoVex ∧ s.nextByte ≤ e) (rexPrefix buf e) (rexPrefix buf e')
      (fun _ s => s.NoVex ∧ s.nextByte ≤ e) (Stuck buf e) := by
  refine .read fun s _ => .ite (fun _ => ?_) fun _ => .pure fun s hs => hs
  refine .bind (extends_peekNext he fun _ hs => hs.1) fun b => ?_
  refine .ite (fun _ => .modify ?_) fun _ => .pure fun s hs => hs.1
  rintro s ⟨⟨hs, -⟩, -, hlt⟩
  exact ⟨hs, by simp only [Insn.setRexPrefix]; omega⟩

theorem extends_vexByte {b : UInt8} {n : ℕ} (hb : b = 0xc4 ∧ n < 3 ∨ b = 0x62 ∧ n < 4) :
    Extends (fun s => InVex buf e s ∧ buf s.nextByte = b)
      (peekNbyteNext buf e n) (peekNbyteNext buf e' n)
      (fun _ s => (InVex buf e s ∧ buf s.nextByte = b) ∧ s.nextByte + 1 + n ≤ e) (Stuck buf e) := by
  refine (extends_peek he n).mono (fun _ hs => hs) (fun _ _ hs => ⟨hs.1, hs.2.2⟩) ?_
  rintro s ⟨⟨hs, rfl⟩, hlt⟩
  refine .inside hs.hasVex ⟨hs.le, ?_⟩
  rcases hb with ⟨hb, hlen⟩ | ⟨hb, hlen⟩
  · exact .inl ⟨hb, by omega⟩
  · exact .inr ⟨hb, by omega⟩

theorem extends_vexPrefixBytes {b : UInt8} (hvex : isVexPrefix (getOpcodeAttribute b))
    (b2 : UInt8) :
    Extends (fun s => b = buf s.nextByte ∧ s.nextByte + 2 ≤ e)
      (vexPrefixBytes buf e (getOpcodeAttribute b) b b2)
      (vexPrefixBytes buf e' (getOpcodeAttribute b) b b2)
      (fun _ s => s.nextByte ≤ e) (Stuck buf e) := by
  suffices h : Extends (fun s => InVex buf e s ∧ buf s.nextByte = b) _ _ _ _ from
    .pre (.modify_bind (.modify_bind h)) fun s hs => ⟨inVex_of_two hs.1 hvex hs.2, hs.1.symm⟩
  refine .ite (fun hattr => ?_) fun _ => .ite (fun hattr => ?_) fun _ => ?_
  · have hb := evex_byte hattr
    refine .bind (extends_vexByte he (.inr ⟨hb, by omega⟩)) fun _ => ?_
    refine .pre (.modify_bind (.bind (extends_vexByte he (.inr ⟨hb, by omega⟩)) fun _ => ?_))
      fun s hs => ⟨hs.1.1.setVexByte (by decide) _, hs.1.2⟩
    refine .pre (.modify_bind (.modify fun s hs => hs)) fun s hs => ?_
    have := hs.2
    simp only [Insn.setVexLength, Insn.setVexByte]
    omega
  · have hb := vex3_byte hattr
    refine .bind (extends_vexByte he (.inl ⟨hb, by omega⟩)) fun _ => ?_
    refine .pre (.modify_bind (.modify fun s hs => hs)) fun s hs => ?_
    have := hs.2
    simp only [Insn.setVexLength, Insn.setVexByte]
    omega
  · exact .pre (.modify_bind (.modify fun s hs => hs)) fun s hs => hs.1.le

theorem extends_vexPrefix :
    Extends (fun s => s.NoVex ∧ s.nextByte ≤ e) (vexPrefix buf e) (vexPrefix buf e')
      (fun _ s => s.nextByte ≤ e) (Stuck buf e) := by
  refine .bind (extends_peekNext he fun _ hs => hs.1) fun b => ?_
  refine .ite (fun hvex => ?_) fun _ => .pure fun s hs => hs.1.2
  refine .bind ((extends_peek he 1).mono (fun _ hs => hs) (fun _ _ hs => hs) ?_) fun b2 => ?_
  · rintro s ⟨⟨⟨hs, -⟩, hb, hlt⟩, hend⟩
    exact .atFirst hs (by omega) (hb ▸ hvex)
  · refine .read fun _ _ => .ite (fun _ => .pure fun s hs => hs.1.1.2) fun _ => ?_
    exact (extends_vexPrefixBytes he hvex b2).pre fun s hs => ⟨hs.1.2.1, by omega⟩

theorem extends_prefixesBody :
    Extends (fun s => s.NoVex ∧ s.nextByte ≤ e) (prefixesBody buf e) (prefixesBody buf e')
      (fun _ s => s.prefixes.got ∧ s.nextByte ≤ e) (Stuck buf e) := by
  refine .get_bind fun s hs => ?_
  have hleft : e - s.nextByte ≤ e' - s.nextByte := by omega
  refine .bind ((extends_legacyPrefixes he hleft 0 0).pre ?_) fun last => ?_
  · rintro t rfl
    exact ⟨hs.1, hs.2, by omega⟩
  · refine .pre (.modify_bind (.bind (extends_rexPrefix he) fun _ => ?_)) ?_
    · refine .pre (.modify_bind (.bind (extends_vexPrefix he) fun _ => ?_)) fun s hs => hs
      exact .modify fun s hs => ⟨rfl, hs⟩
    · intro s hs
      exact ⟨setLastPrefix_noVex hs.1, by rw [setLastPrefix_nextByte]; exact hs.2⟩

end Extends

structure Inside (lo e : ℕ) (s : Insn) : Prop where
  got : s.prefixes.got
  pos : lo < s.nextByte
  le : s.nextByte ≤ e

/-- No immediate has been read. -/
structure Fresh (lo e : ℕ) (s : Insn) : Prop extends Inside lo e s where
  fresh : s.immediate.got = false

/-- The attribute is known, too. -/
structure Known (lo e : ℕ) (s : Insn) : Prop extends Inside lo e s where
  second : SecondOk s.attr

section Known

variable {buf : Memory} {lo e e' : ℕ} {I E : Insn → Prop}

open Stage

theorem insnGetPrefixes_of_got {s : Insn} (h : s.prefixes.got) : insnGetPrefixes buf e s = s :=
  if_pos h

theorem extends_insnIsAvx (hI : ∀ s, I s → s.prefixes.got) :
    Extends I (insnIsAvx buf e) (insnIsAvx buf e') (fun _ => I) E := by
  intro s hs
  refine .inl ⟨s.hasVex, s, ?_, ?_, hs⟩ <;>
    rw [insnIsAvx, eval_modify_bind, insnGetPrefixes_of_got (hI s hs)] <;> rfl

theorem extends_insnIsEvex (hI : ∀ s, I s → s.prefixes.got) :
    Extends I (insnIsEvex buf e) (insnIsEvex buf e') (fun _ => I) E := by
  intro s hs
  refine .inl ⟨s.vexPrefix.nbytes = 4, s, ?_, ?_, hs⟩ <;>
    rw [insnIsEvex, eval_modify_bind, insnGetPrefixes_of_got (hI s hs)] <;> rfl

theorem extends_insnLastPrefixId (hI : ∀ s, I s → s.prefixes.got) :
    Extends I (insnLastPrefixId buf e) (insnLastPrefixId buf e') (fun _ => I) E := by
  refine .bind (extends_insnIsAvx hI) fun _ => .read fun s _ => ?_
  exact .ite (fun _ => .pure fun _ hs => hs) fun _ =>
    .ite (fun _ => .pure fun _ hs => hs) fun _ => .pure fun _ hs => hs

theorem Inside.known {s : Insn} (h : Inside lo e s) {attr : Attr} (hattr : SecondOk attr) :
    Known lo e (s.setAttr attr) :=
  ⟨⟨h.got, h.pos, h.le⟩, hattr⟩

theorem extends_avxAttribute (op : UInt8) :
    Extends (Inside lo e) (avxAttribute buf e op) (avxAttribute buf e' op)
      (fun _ => Known lo e) E := by
  refine .pre (.modify_bind (I := Known lo e) ?_) fun s hs => hs.known (secondOk_avx op _ _)
  refine .read fun s _ => .bind (K := fun _ => Known lo e) ?_ fun lacks => ?_
  · exact .ite (fun _ => .map (extends_insnIsEvex fun s hs => hs.got)) fun _ => .pure fun _ hs => hs
  · exact .ite (fun _ => .modify fun s hs => hs.known secondOk_zero) fun _ => .pure fun _ hs => hs

theorem extends_groupAttribute (mod : UInt8) :
    Extends (Known lo e) (groupAttribute buf e mod) (groupAttribute buf e' mod)
      (fun _ => Known lo e)
      E := by
  refine .get_bind fun s hs => .ite (fun hgrp => ?_) fun _ => .pure fun t ht => ht ▸ hs
  refine .bind (extends_insnLastPrefixId fun t ht => ht ▸ hs.got) fun pfxId => ?_
  refine .pre (.modify_bind (.bind (extends_insnIsAvx fun t ht => ht.got) fun avx => ?_))
    fun t ht => ht ▸ hs.known (secondOk_group hs.second hgrp mod pfxId)
  refine .read fun t _ => .ite (fun _ => ?_) fun _ => .pure fun _ hs => hs
  exact .modify fun s hs => hs.known secondOk_zero

end Known

section Stages

variable {buf : Memory} {lo e e' : ℕ} (he : e ≤ e') {E : Insn → Prop}

open Stage

include he

variable (size : ℕ)

theorem extends_known (hE : ∀ s, Known lo e s → E s) :
    Extends (Known lo e) (getNext buf e size) (getNext buf e' size) (fun _ => Known lo e) E :=
  extends_getNext he
    (fun _ hs hle => ⟨⟨hs.got, Nat.lt_add_right _ hs.pos, hle⟩, hs.second⟩) hE

theorem extends_getEscapes {left left' : ℕ} (hleft : left ≤ left') :
    Extends (Known lo e) (getEscapes buf e left) (getEscapes buf e' left') (fun _ => Known lo e)
      (fun _ => True) := by
  induction left generalizing left' with
  | zero =>
    cases left' <;> exact .read fun s _ =>
      .ite (fun _ => .failure fun _ _ => trivial) fun _ => .pure fun _ hs => hs
  | succ left ih =>
    obtain ⟨left', rfl⟩ : ∃ l, left' = l + 1 := ⟨left' - 1, by omega⟩
    refine .read fun s _ => .ite (fun _ => ?_) fun _ => .pure fun _ hs => hs
    refine .bind (.map (extends_known he 1 fun _ _ => trivial)) fun op => ?_
    refine .pre (.modify_bind (I := Known lo e)
      (.bind (extends_insnLastPrefixId fun s hs => hs.got) fun pfxId => ?_))
      fun s hs => ⟨⟨hs.got, hs.pos, hs.le⟩, hs.second⟩
    refine .pre (.modify_bind (ih (by omega))) fun s hs => hs.known (secondOk_escape op pfxId _)

theorem extends_legacyAttribute (op : UInt8) :
    Extends (Inside lo e) (legacyAttribute buf e op) (legacyAttribute buf e' op)
      (fun _ => Known lo e)
      (fun _ => True) := by
  refine .pre (.modify_bind (I := Known lo e) ?_) fun s hs => hs.known (secondOk_opcode op)
  refine .read fun s _ => .bind (extends_getEscapes he (by omega)) fun _ => .read fun s _ => ?_
  exact .ite (fun _ => .modify fun s hs => hs.known secondOk_zero) fun _ => .pure fun _ hs => hs

theorem extends_opcodeBody :
    Extends (fun s => s.prefixes.got ∧ lo ≤ s.nextByte ∧ s.nextByte ≤ e) (opcodeBody buf e)
      (opcodeBody buf e')
      (fun _ => Known lo e) (fun _ => True) := by
  have hfirst : ∀ s : Insn, s.prefixes.got ∧ lo ≤ s.nextByte ∧ s.nextByte ≤ e → s.nextByte + 1 ≤ e →
      Inside lo e (s.skip 1) := fun s hs hle => ⟨hs.1, Nat.lt_succ_of_le hs.2.1, hle⟩
  refine .bind (.map (extends_getNext he hfirst fun _ _ => trivial)) fun op => ?_
  refine .pre (.modify_bind (I := Inside lo e)
    (.bind (extends_insnIsAvx fun s hs => hs.got) fun avx => ?_))
    fun s hs => ⟨hs.got, hs.pos, hs.le⟩
  exact .ite (fun _ => extends_avxAttribute op) fun _ => extends_legacyAttribute he op

theorem extends_modrmBody :
    Extends (Known lo e) (modrmBody buf e) (modrmBody buf e') (fun _ => Known lo e)
      (fun _ => True) := by
  refine .bind (K := fun _ => Known lo e) (.read fun s _ => .ite (fun _ => ?_) fun _ => ?_)
    fun _ => ?_
  · refine .bind (.map (extends_known he 1 fun _ _ => trivial)) fun mod => ?_
    exact .pre (.modify_bind (extends_groupAttribute mod)) fun s hs =>
      ⟨⟨hs.got, hs.pos, hs.le⟩, hs.second⟩
  · exact .pure fun _ hs => hs
  · exact .modify fun s hs => ⟨⟨hs.got, hs.pos, hs.le⟩, hs.second⟩

theorem extends_sibBody :
    Extends (Known lo e) (sibBody buf e) (sibBody buf e') (fun _ => Known lo e)
      (fun _ => True) := by
  refine .read fun s _ => .ite (fun _ => ?_) fun _ => .pure fun _ hs => hs
  refine .bind (.map (extends_known he 1 fun _ _ => trivial)) fun sib => ?_
  exact .modify fun s hs => ⟨⟨hs.got, hs.pos, hs.le⟩, hs.second⟩

theorem extends_displacementBody :
    Extends (Known lo e) (displacementBody buf e) (displacementBody buf e') (fun _ => Known lo e)
      (fun _ => True) := by
  refine .read fun s _ => .ite (fun _ => .pure fun _ hs => hs) fun _ => ?_
  refine .bind (.map (extends_known he _ fun _ _ => trivial)) fun value => ?_
  exact .modify fun s hs => ⟨⟨hs.got, hs.pos, hs.le⟩, hs.second⟩

theorem extends_fresh :
    Extends (Fresh lo e) (getNext buf e size) (getNext buf e' size) (fun _ => Fresh lo e)
      (fun s => s.immediate.got = false) :=
  extends_getNext he
    (fun _ hs hle => ⟨⟨hs.got, Nat.lt_add_right _ hs.pos, hle⟩, hs.fresh⟩)
    fun _ hs => hs.fresh

theorem extends_getImmediate :
    Extends (Fresh lo e) (getImmediate buf e size) (getImmediate buf e' size) (fun _ => Fresh lo e)
      (fun s => s.immediate.got = false) :=
  .bind (.map (extends_fresh he size)) fun _ => .modify fun _ hs =>
    ⟨⟨hs.got, hs.pos, hs.le⟩, hs.fresh⟩

theorem extends_getImmediate2 :
    Extends (Fresh lo e) (getImmediate2 buf e size) (getImmediate2 buf e' size)
      (fun _ => Fresh lo e)
      (fun s => s.immediate.got = false) :=
  .bind (.map (extends_fresh he size)) fun _ => .modify fun _ hs =>
    ⟨⟨hs.got, hs.pos, hs.le⟩, hs.fresh⟩

omit he in
theorem extends_markImmediates {p q : Stage Insn Unit}
    (h : Extends (Fresh lo e) p q (fun _ => Fresh lo e) (fun s => s.immediate.got = false)) :
    Extends (Fresh lo e) (do p; modify markImmediates) (do q; modify markImmediates)
      (fun _ => Inside lo e) (fun s => s.immediate.got = false) :=
  .bind h fun _ => .modify fun _ hs => ⟨hs.got, hs.pos, hs.le⟩

theorem extends_getWord (bytes : UInt8) :
    Extends (Fresh lo e) (getWord buf e bytes) (getWord buf e' bytes) (fun _ => Fresh lo e)
      (fun s => s.immediate.got = false) := by
  refine .ite (fun _ => extends_getImmediate he 2) fun _ =>
    .ite (fun _ => extends_getImmediate he 4) fun _ =>
    .ite (fun _ => ?_) fun _ => .failure fun _ hs => hs.fresh
  exact .bind (extends_getImmediate he 4) fun _ => extends_getImmediate2 he 4

theorem extends_getImmptr :
    Extends (Fresh lo e) (getImmptr buf e) (getImmptr buf e') (fun _ => Inside lo e)
      (fun s => s.immediate.got = false) := by
  refine .read fun s _ => .bind (K := fun _ => Fresh lo e) ?_ fun _ => ?_
  · exact .ite (fun _ => extends_getImmediate he 2) fun _ =>
      .ite (fun _ => extends_getImmediate he 4) fun _ => .failure fun _ hs => hs.fresh
  · refine .bind (.map (extends_fresh he 2)) fun segment => ?_
    exact .pre (.modify_bind (.modify fun s hs => hs)) fun s hs => ⟨hs.got, hs.pos, hs.le⟩

theorem extends_getImmv32 :
    Extends (Fresh lo e) (getImmv32 buf e) (getImmv32 buf e') (fun _ => Fresh lo e)
      (fun s => s.immediate.got = false) :=
  .read fun _ _ => .ite (fun _ => extends_getImmediate he 2) fun _ =>
    .ite (fun _ => extends_getImmediate he 4) fun _ => .failure fun _ hs => hs.fresh

theorem extends_firstImmediate :
    Extends (Fresh lo e) (firstImmediate buf e size) (firstImmediate buf e' size)
      (fun _ s => Inside lo e s ∧ (size = immWord → s.immediate.got = false))
      (fun s => s.immediate.got = false) := by
  have hfresh {p q : Stage Insn Unit}
      (h : Extends (Fresh lo e) p q (fun _ => Fresh lo e) (fun s => s.immediate.got = false)) :
      Extends (Fresh lo e) p q (fun _ s => Inside lo e s ∧
        (size = immWord → s.immediate.got = false))
        (fun s => s.immediate.got = false) :=
    h.mono (fun _ hs => hs) (fun _ s hs => ⟨hs.toInside, fun _ => hs.fresh⟩) fun _ hs => hs
  have hmarked {p q : Stage Insn Unit} (hne : size ≠ immWord)
      (h : Extends (Fresh lo e) p q (fun _ => Inside lo e) (fun s => s.immediate.got = false)) :
      Extends (Fresh lo e) p q (fun _ s => Inside lo e s ∧
        (size = immWord → s.immediate.got = false))
        (fun s => s.immediate.got = false) :=
    h.mono (fun _ hs => hs) (fun _ s hs => ⟨hs, fun heq => absurd heq hne⟩) fun _ hs => hs
  refine .ite (fun _ => hfresh (extends_getImmediate he 1)) fun _ =>
    .ite (fun _ => hfresh (extends_getImmediate he 2)) fun hne =>
    .ite (fun _ => hfresh (extends_getImmediate he 4)) fun _ =>
    .ite (fun _ => hfresh ?_) fun _ => .ite (fun _ => hmarked hne (extends_getImmptr he)) fun _ =>
    .ite (fun _ => hfresh (extends_getImmv32 he)) fun _ =>
    .ite (fun _ => hmarked hne ?_) fun _ => .failure fun _ hs => hs.fresh
  · exact .bind (extends_getImmediate he 4) fun _ => extends_getImmediate2 he 4
  · exact .read fun s _ => extends_markImmediates (extends_getWord he s.opndBytes)

theorem extends_immediateBody :
    Extends (fun s => Fresh lo e s ∧ SecondOk s.attr) (immediateBody buf e) (immediateBody buf e')
      (fun _ => Inside lo e) (fun s => s.immediate.got = false) := by
  refine .read fun s hs => .ite (fun _ => ?_) fun _ => .ite (fun _ => ?_) fun _ => ?_
  · refine .pre (K := Fresh lo e) ?_ fun _ hs => hs.1
    exact .read fun s _ => extends_markImmediates (extends_getWord he s.addrBytes)
  · refine .bind ((extends_firstImmediate he _).pre fun s hs => hs.1) fun _ => ?_
    refine .ite (fun hsec => ?_) fun _ => .pure fun s hs => hs.1
    refine ((extends_getImmediate2 he 1).mono ?_ (fun _ _ h => h.toInside) fun _ h => h)
    exact fun t ht => ⟨ht.1, ht.2 (hs.2 hsec).1⟩
  · exact .pure fun s hs => hs.1.toInside

end Stages

end RPerf.X86
