import RPerf.X86.VexPrefix

/-!
# A VEX prefix that is cut off

Where the bytes end behind the second byte of a VEX prefix, its first byte becomes the
opcode, and `insn_is_avx` runs the prefix stage again on what is left.
-/

namespace RPerf.X86

open Lib Inat Stage

section

variable (x86_64 : Bool)

/-- How far `insn_get_prefixes` gets when it runs again. -/
def passedOne (b2 : UInt8) : ℕ :=
  if legacyByte b2 || x86_64 && rexByte b2 then 1 else 0

def passedTwo (b2 b3 : UInt8) : ℕ :=
  if legacyByte b2 then if legacyByte b3 || x86_64 && rexByte b3 then 2 else 1
  else if x86_64 && rexByte b2 then 1
  else if b2 = 0xc5 ∧ vexSecond x86_64 b3 then 2
  else 0

def mapByte (b2 b3 : UInt8) : UInt8 :=
  if (b2 = 0xc4 ∨ b2 = 0x62) ∧ vexSecond x86_64 b3 then b3 else b2

/-- The stored bytes select the table in which `62` is an AVX opcode. -/
def AsOpcode (b2 b3 : UInt8) : Prop :=
  (mapByte x86_64 b2 b3).toNat % 2 = 1 ∧ b3.toNat % 4 = 1

def lastModrm (b : UInt8) : Bool := 0xc0 ≤ b ∨ b < 0x40 ∧ b &&& 7 ≠ 4 ∧ b &&& 7 ≠ 5

def bareInsn (buf : Memory) (len : ℕ) : Decode.Insn := { length := len, buf := bytesAt buf 0 len }

theorem passedOne_le (b2 : UInt8) : passedOne x86_64 b2 ≤ 1 := by
  rw [passedOne]
  split <;> omega

theorem passedTwo_le (b2 b3 : UInt8) : passedTwo x86_64 b2 b3 ≤ 2 := by
  rw [passedTwo]
  split_ifs <;> omega

end

section Eval

variable {buf : Memory} {e : ℕ} {s : Insn}

theorem insnGetPrefixes_of_end (h : e ≤ s.nextByte) : insnGetPrefixes buf e s = s := by
  rw [insnGetPrefixes]
  split
  · rfl
  · apply exec_of_eval
    apply eval_prefixesBody_none
    rw [Nat.sub_eq_zero_of_le h]
    rfl

theorem getNextByte_of_end (h : e ≤ s.nextByte) : (getNextByte buf e).eval s = (none, s) := by
  rw [getNextByte, map_eq_pure_bind]
  apply eval_bind_none
  rw [getNext, eval_get_bind, if_neg (by omega), eval_failure]

theorem getNextByte_of_lt (h : s.nextByte < e) :
    (getNextByte buf e).eval s = (some (buf s.nextByte), s.skip 1) := by
  have hbyte : UInt8.ofNat (ofBytes (bytesAt buf s.nextByte 1)) = buf s.nextByte := by
    simp [bytesAt, ofBytes]
  have hnext : (getNext buf e 1).eval s =
      (some (ofBytes (bytesAt buf s.nextByte 1)), s.skip 1) := by
    rw [getNext, eval_get_bind, if_pos (by omega)]
    rfl
  rw [getNextByte, map_eq_pure_bind, eval_bind_some hnext, hbyte, eval_pure]

theorem eval_legacy_other {left nb : ℕ} {lb : UInt8} (h : s.nextByte < e)
    (hb : legacyByte (buf s.nextByte) = false) :
    (legacyPrefixes buf e (left + 1) nb lb).eval s = (some (nb, lb), s) := by
  rw [legacyPrefixes, peekNext, eval_bind_some (eval_peekNbyteNext h), Nat.add_zero]
  dsimp only
  rw [isLegacyPrefix_opcode, hb]
  rfl

theorem eval_legacy_first {left : ℕ} (h : s.nextByte < e) (hb : legacyByte (buf s.nextByte)) :
    (legacyPrefixes buf e (left + 1) 0 0).eval s =
      (legacyPrefixes buf e left 1 (buf s.nextByte)).eval (s.addPrefix 0 (buf s.nextByte)
        (getOpcodeAttribute (buf s.nextByte))).skipPrefix := by
  rw [legacyPrefixes, peekNext, eval_bind_some (eval_peekNbyteNext h), Nat.add_zero]
  dsimp only
  rw [isLegacyPrefix_opcode, if_pos hb]
  rfl

theorem eval_legacy_last {nb : ℕ} (lb : UInt8) (hnb : nb < 4) (h : s.nextByte + 1 = e)
    (hb : legacyByte (buf s.nextByte)) :
    ∃ t, (legacyPrefixes buf e 1 nb lb).eval s = (none, t) ∧ t.nextByte = e ∧
      t.vexPrefix = s.vexPrefix := by
  rw [legacyPrefixes, peekNext, eval_bind_some (eval_peekNbyteNext (by omega)), Nat.add_zero]
  dsimp only
  rw [isLegacyPrefix_opcode, if_pos hb, eval_get_bind]
  split
  · exact ⟨s.skipPrefix, rfl, h, rfl⟩
  · rw [if_neg hnb.ne]
    exact ⟨_, rfl, h, rfl⟩

theorem vexStage_short (buf : Memory) (h : e ≤ s.nextByte + 1) :
    ((vexStage buf e).exec s).nextByte = s.nextByte ∧
      ((vexStage buf e).exec s).vexPrefix.value = s.vexPrefix.value ∧
      ((vexStage buf e).exec s).vexPrefix.nbytes = s.vexPrefix.nbytes := by
  have hstop (hnone : (vexPrefix buf e).eval s = (none, s)) : (vexStage buf e).exec s = s :=
    exec_of_eval (eval_bind_none hnone)
  rcases Nat.eq_or_lt_of_le h with heq | hlt
  · cases hb : vexByte (buf s.nextByte) with
    | false =>
      have heval : (vexStage buf e).eval s =
          (some (), { s with vexPrefix.got := true, prefixes.got := true }) :=
        eval_bind_some (eval_vexPrefix_other (by omega) hb)
      rw [exec_of_eval heval]
      exact ⟨rfl, rfl, rfl⟩
    | true =>
      rw [hstop (eval_vexPrefix_first heq.symm hb)]
      exact ⟨rfl, rfl, rfl⟩
  · rw [hstop (eval_vexPrefix_of_end (Nat.le_of_lt_succ hlt))]
    exact ⟨rfl, rfl, rfl⟩

theorem eval_prefixesBody_plain (h : s.nextByte < e) (hb : legacyByte (buf s.nextByte) = false) :
    (prefixesBody buf e).eval s = (vexStage buf e).eval (s.afterRex buf) := by
  obtain ⟨left, hleft⟩ : ∃ left, e - s.nextByte = left + 1 := ⟨e - s.nextByte - 1, by omega⟩
  have hlegacy : (legacyPrefixes buf e (e - s.nextByte) 0 0).eval s = (some (0, 0), s) :=
    hleft ▸ eval_legacy_other h hb
  have hlast : s.setLastPrefix 0 0 = s := by
    rw [Insn.setLastPrefix]
    exact if_neg fun h => h.1 rfl
  rw [eval_prefixesBody hlegacy h, hlast]

theorem insnGetPrefixes_run (h : s.prefixes.got = false) :
    insnGetPrefixes buf e s = (prefixesBody buf e).exec s :=
  if_neg (Bool.eq_false_iff.mp h)

theorem reread_one (buf : Memory) (hgot : s.prefixes.got = false) (h : s.nextByte + 1 = e) :
    (insnGetPrefixes buf e s).nextByte = s.nextByte + passedOne s.x86_64 (buf s.nextByte) ∧
      (insnGetPrefixes buf e s).vexPrefix.value = s.vexPrefix.value ∧
      (insnGetPrefixes buf e s).vexPrefix.nbytes = s.vexPrefix.nbytes := by
  have hleft : e - s.nextByte = 1 := by omega
  rw [insnGetPrefixes_run hgot, passedOne]
  cases hb : legacyByte (buf s.nextByte) with
  | true =>
    obtain ⟨t, heval, hnext, hvex⟩ := eval_legacy_last 0 (by decide : 0 < 4) h hb
    rw [exec_of_eval (eval_prefixesBody_none (hleft ▸ heval)), hnext, hvex]
    exact ⟨h.symm, rfl, rfl⟩
  | false =>
    have hnext := afterRex_nextByte buf s
    have hlt : e ≤ (s.afterRex buf).nextByte + 1 := by split at hnext <;> omega
    obtain ⟨hnext', hvalue, hnbytes⟩ := vexStage_short buf hlt
    rw [Stage.exec, eval_prefixesBody_plain (by omega) hb]
    refine ⟨hnext'.trans (hnext.trans ?_), hvalue.trans ?_, hnbytes.trans ?_⟩
    · rw [Bool.false_or]
      split <;> rfl
    · rw [afterRex_vexPrefix]
    · rw [afterRex_vexPrefix]

structure Leftover (b2 b3 : UInt8) (s : Insn) : Prop where
  first : s.vexPrefix.value.get 0 ≠ 0
  second : s.vexPrefix.value.get 1 = b2
  third : s.vexPrefix.value.get 2 = b3
  nbytes : s.vexPrefix.nbytes = 0

/-- What chooses the attribute of the opcode. -/
structure Chooses (b2 b3 : UInt8) (s : Insn) : Prop where
  hasVex : s.vexPrefix.value.get 0 ≠ 0
  mBits : s.vexMBits = b2.toNat % 4
  pBits : s.vexPBits = b3.toNat % 4

theorem toNat_and_three (b : UInt8) : (b &&& 3).toNat = b.toNat % 4 :=
  forall_byte (P := fun b => (b &&& 3).toNat = b.toNat % 4) (by decide +kernel) b

variable {b2 b3 : UInt8}

theorem Leftover.chooses (h : Leftover b2 b3 s) : Chooses b2 b3 s := by
  refine ⟨h.first, ?_, ?_⟩
  · rw [← toNat_and_three, ← h.second, Insn.vexMBits, h.nbytes]
    rfl
  · rw [← toNat_and_three, ← h.third, Insn.vexPBits, h.nbytes]
    rfl

theorem Leftover.of_eq {t : Insn} (h : Leftover b2 b3 s)
    (hvalue : t.vexPrefix.value = s.vexPrefix.value)
    (hnbytes : t.vexPrefix.nbytes = s.vexPrefix.nbytes) : Leftover b2 b3 t := by
  refine ⟨?_, ?_, ?_, hnbytes.trans h.nbytes⟩ <;> rw [hvalue]
  · exact h.first
  · exact h.second
  · exact h.third

theorem mapByte_of_ne {x86_64 : Bool} (b3 : UInt8) (h : b2 ≠ 0xc4) (h' : b2 ≠ 0x62) :
    mapByte x86_64 b2 b3 = b2 :=
  if_neg fun hb => hb.1.elim h h'

theorem setLastPrefix_vexPrefix (nb : ℕ) (lb : UInt8) (s : Insn) :
    (s.setLastPrefix nb lb).vexPrefix = s.vexPrefix := by
  rw [Insn.setLastPrefix]
  split <;> rfl

theorem reread_legacy (h : s.nextByte + 2 = e) (hb2 : buf s.nextByte = b2)
    (hb3 : buf (s.nextByte + 1) = b3) (hlegacy : legacyByte b2) :
    ((prefixesBody buf e).exec s).nextByte =
        s.nextByte + (if legacyByte b3 || s.x86_64 && rexByte b3 then 2 else 1) ∧
      ((prefixesBody buf e).exec s).vexPrefix.value = s.vexPrefix.value ∧
      ((prefixesBody buf e).exec s).vexPrefix.nbytes = s.vexPrefix.nbytes := by
  have hleft : e - s.nextByte = 2 := by omega
  set t := (s.addPrefix 0 b2 (getOpcodeAttribute b2)).skipPrefix with ht
  have hfirst : (legacyPrefixes buf e (e - s.nextByte) 0 0).eval s =
      (legacyPrefixes buf e 1 1 b2).eval t := by
    rw [hleft, ht, ← hb2]
    exact eval_legacy_first (by omega) (hb2 ▸ hlegacy)
  have htnext : t.nextByte = s.nextByte + 1 := rfl
  have htbyte : buf t.nextByte = b3 := hb3
  cases hlegacy3 : legacyByte b3 with
  | true =>
    obtain ⟨u, heval, hnext, hvex⟩ := eval_legacy_last b2 (by decide : 1 < 4)
      (by omega : t.nextByte + 1 = e) (htbyte ▸ hlegacy3)
    rw [exec_of_eval (eval_prefixesBody_none (hfirst.trans heval)), hvex]
    exact ⟨hnext.trans h.symm, rfl, rfl⟩
  | false =>
    have heval := eval_prefixesBody (hfirst.trans (eval_legacy_other (by omega)
      (htbyte ▸ hlegacy3))) (by omega)
    set u := t.setLastPrefix 1 b2
    have hmode : u.x86_64 = s.x86_64 := congrArg Rest.x86_64 (setLastPrefix_rest 1 b2 t)
    have hunext : u.nextByte = s.nextByte + 1 := setLastPrefix_nextByte 1 b2 t
    have hnext := afterRex_nextByte buf u
    rw [hmode, hunext, hb3] at hnext
    have hshort : e ≤ (u.afterRex buf).nextByte + 1 := by split at hnext <;> omega
    obtain ⟨hnext', hvalue, hnbytes⟩ := vexStage_short buf hshort
    have hvex : (u.afterRex buf).vexPrefix = s.vexPrefix :=
      (afterRex_vexPrefix buf u).trans (setLastPrefix_vexPrefix 1 b2 t)
    rw [hvex] at hvalue hnbytes
    rw [Stage.exec, heval]
    refine ⟨hnext'.trans (hnext.trans ?_), hvalue, hnbytes⟩
    rw [Bool.false_or]
    split <;> rfl

theorem setVexByte_get_self (i : Fin 4) (b : UInt8) (s : Insn) :
    (s.setVexByte i b).vexPrefix.value.get i = b :=
  Vector.getElem_set_self i.isLt

theorem setVexByte_get_ne {i j : Fin 4} (h : i ≠ j) (b : UInt8) (s : Insn) :
    (s.setVexByte i b).vexPrefix.value.get j = s.vexPrefix.value.get j :=
  Vector.getElem_set_ne i.isLt j.isLt (Fin.val_ne_of_ne h)

theorem Leftover.setVexBytes {b : UInt8} (h : Leftover b2 b3 s) (hb : b ≠ 0) :
    Leftover b3 b3 (s.setVexBytes 0 1 b b3) := by
  refine ⟨?_, setVexByte_get_self 1 b3 _, ?_, h.nbytes⟩ <;>
    rw [Insn.setVexBytes, setVexByte_get_ne (by decide)]
  · rw [setVexByte_get_self]
    exact hb
  · rw [setVexByte_get_ne (by decide)]
    exact h.third

theorem chooses_vex2 (b3 : UInt8) (s : Insn) : Chooses 0xc5 b3
    (((s.setVexBytes 0 1 0xc5 b3).setVexByte 2 (b3 &&& 0x7f)).setVexLength 2 false) := by
  set t := (s.setVexBytes 0 1 0xc5 b3).setVexByte 2 (b3 &&& 0x7f)
  have hfirst : t.vexPrefix.value.get 0 = 0xc5 := by
    rw [setVexByte_get_ne (by decide), Insn.setVexBytes, setVexByte_get_ne (by decide),
      setVexByte_get_self]
  have hsecond : t.vexPrefix.value.get 1 = b3 := by
    rw [setVexByte_get_ne (by decide), Insn.setVexBytes, setVexByte_get_self]
  have hbits : (t.setVexLength 2 false).vexPBits = (t.vexPrefix.value.get 1 &&& 3).toNat := rfl
  refine ⟨?_, rfl, ?_⟩
  · intro h0
    exact absurd (hfirst.symm.trans h0) (by decide)
  · rw [hbits, hsecond, toNat_and_three]

theorem Chooses.mark (h : Chooses b2 b3 s) :
    Chooses b2 b3 { s with vexPrefix.got := true, prefixes.got := true } :=
  ⟨h.hasVex, h.mBits, h.pBits⟩

theorem reread_vex (buf : Memory) (h : s.nextByte + 2 = e) (hb2 : buf s.nextByte = b2)
    (hb3 : buf (s.nextByte + 1) = b3) (hs : Leftover b2 b3 s) :
    ((vexStage buf e).exec s).nextByte =
        s.nextByte + (if b2 = 0xc5 ∧ vexSecond s.x86_64 b3 then 2 else 0) ∧
      Chooses (mapByte s.x86_64 b2 b3) b3 ((vexStage buf e).exec s) := by
  have hsome {t : Insn} (heval : (vexPrefix buf e).eval s = (some (), t)) :
      (vexStage buf e).exec s = { t with vexPrefix.got := true, prefixes.got := true } :=
    exec_of_eval (eval_bind_some heval)
  have hnone {t : Insn} (heval : (vexPrefix buf e).eval s = (none, t)) :
      (vexStage buf e).exec s = t :=
    exec_of_eval (eval_bind_none heval)
  cases hb : vexByte b2 with
  | false =>
    have hne (b : UInt8) (hvex : vexByte b) : b2 ≠ b := by
      rintro rfl
      exact absurd hvex (Bool.eq_false_iff.mp hb)
    rw [hsome (eval_vexPrefix_other (by omega) (hb2 ▸ hb)),
      mapByte_of_ne b3 (hne _ rfl) (hne _ rfl),
      if_neg fun h => hne _ rfl h.1]
    exact ⟨rfl, hs.chooses.mark⟩
  | true =>
    have heval := eval_vexPrefix (by omega : s.nextByte + 1 < e) (hb2 ▸ hb)
    rw [hb2, hb3] at heval
    cases hsecond : vexSecond s.x86_64 b3 with
    | false =>
      rw [hsecond] at heval
      rw [hsome heval, mapByte, hsecond, if_neg (by simp), if_neg (by simp)]
      exact ⟨rfl, hs.chooses.mark⟩
    | true =>
      rw [hsecond, if_pos rfl] at heval
      rw [vexByte, decide_eq_true_iff] at hb
      rcases hb with rfl | rfl | rfl
      · rw [eval_vexPrefixBytes_vex3, if_neg (by omega)] at heval
        rw [hnone heval, mapByte, hsecond, if_neg (by decide), if_pos (by decide)]
        exact ⟨rfl, (hs.setVexBytes (by decide)).chooses⟩
      · rw [eval_vexPrefixBytes_vex2] at heval
        rw [hsome heval, mapByte_of_ne b3 (by decide) (by decide), if_pos (by decide)]
        exact ⟨rfl, (chooses_vex2 b3 s).mark⟩
      · rw [eval_vexPrefixBytes_evex, if_neg (by omega), if_neg (by omega)] at heval
        rw [hnone heval, mapByte, hsecond, if_neg (by decide), if_pos (by decide)]
        exact ⟨rfl, (hs.setVexBytes (by decide)).chooses⟩

theorem reread_two (hgot : s.prefixes.got = false) (h : s.nextByte + 2 = e)
    (hb2 : buf s.nextByte = b2) (hb3 : buf (s.nextByte + 1) = b3) (hs : Leftover b2 b3 s) :
    (insnGetPrefixes buf e s).nextByte = s.nextByte + passedTwo s.x86_64 b2 b3 ∧
      Chooses (mapByte s.x86_64 b2 b3) b3 (insnGetPrefixes buf e s) := by
  rw [insnGetPrefixes_run hgot, passedTwo]
  cases hlegacy : legacyByte b2 with
  | true =>
    have hmap : mapByte s.x86_64 b2 b3 = b2 := by
      apply mapByte_of_ne <;> rintro rfl <;> exact absurd hlegacy (by decide)
    obtain ⟨hnext, hvalue, hnbytes⟩ := reread_legacy h hb2 hb3 hlegacy
    rw [hmap, if_pos rfl]
    exact ⟨hnext, (hs.of_eq hvalue hnbytes).chooses⟩
  | false =>
    have hnext := afterRex_nextByte buf s
    have hvex := afterRex_vexPrefix buf s
    have hrest : (s.afterRex buf).x86_64 = s.x86_64 := by
      rw [Insn.afterRex]
      split <;> rfl
    have hleft : Leftover b2 b3 (s.afterRex buf) := hs.of_eq (by rw [hvex]) (by rw [hvex])
    rw [Stage.exec, eval_prefixesBody_plain (by omega) (hb2 ▸ hlegacy), if_neg (by decide)]
    rw [hb2] at hnext
    cases hrex : s.x86_64 && rexByte b2 with
    | true =>
      have hmap : mapByte s.x86_64 b2 b3 = b2 := by
        rw [Bool.and_eq_true] at hrex
        apply mapByte_of_ne <;> rintro rfl <;> exact absurd hrex.2 (by decide)
      rw [hrex] at hnext
      obtain ⟨hnext', hvalue, hnbytes⟩ := vexStage_short buf
        (by rw [hnext]; simp; omega : e ≤ (s.afterRex buf).nextByte + 1)
      rw [hmap, if_pos rfl]
      exact ⟨hnext'.trans hnext, (hleft.of_eq hvalue hnbytes).chooses⟩
    | false =>
      rw [hrex, if_neg (by decide)] at hnext
      have hread := reread_vex buf (e := e) (by omega) (hnext ▸ hb2) (hnext ▸ hb3) hleft
      rw [hnext, hrest] at hread
      rw [if_neg (by decide)]
      exact hread

end Eval

section Cut

variable {buf : Memory} {e p : ℕ} {x86_64 : Bool} {s t : Insn} {b2 : UInt8}

theorem Clear.leftover (h : Clear x86_64 t) {b : UInt8} (hb : b ≠ 0) (b2 : UInt8) :
    Leftover b2 0 (t.setVexBytes 0 1 b b2) := by
  refine ⟨?_, setVexByte_get_self 1 b2 _, ?_, h.vex.2⟩ <;>
    rw [Insn.setVexBytes, setVexByte_get_ne (by decide)]
  · rw [setVexByte_get_self]
    exact hb
  · rw [setVexByte_get_ne (by decide), h.vex.1]
    rfl

theorem Leftover.setThird (h : Leftover b2 0 s) (b3 : UInt8) :
    Leftover b2 b3 (s.setVexByte 2 b3) := by
  refine ⟨?_, ?_, setVexByte_get_self 2 b3 s, h.nbytes⟩ <;> rw [setVexByte_get_ne (by decide)]
  · exact h.first
  · exact h.second

theorem LongVexAt.leftover (h : LongVexAt buf x86_64 p) (hends : EndsInVex buf e p) :
    ∃ s, insnGetPrefixes buf e (.init x86_64) = s ∧ s.nextByte = p ∧ s.prefixes.got = false ∧
      s.rest = (Insn.init x86_64).rest ∧
      Leftover (buf (p + 1)) (if p + 2 < e then buf (p + 2) else 0) s := by
  obtain ⟨hle, hends⟩ := hends
  obtain ⟨t, ht, rfl, hvex, heval⟩ := h.eval_behind hle
  have hstop {u : Insn} (hu : (vexPrefix buf e).eval t = (none, u)) :
      insnGetPrefixes buf e (.init x86_64) = u :=
    exec_of_eval (heval.trans (eval_bind_none hu))
  rcases hends with ⟨hb, hlt⟩ | ⟨hb, hlt⟩ <;> rw [hb] at hvex
  · rw [eval_vexPrefixBytes_vex3, if_neg (by omega)] at hvex
    rw [if_neg (by omega)]
    exact ⟨_, hstop hvex, rfl, ht.got, ht.rest, ht.leftover (by decide) _⟩
  · rw [eval_vexPrefixBytes_evex, if_neg (by omega)] at hvex
    split at hvex
    case isTrue hthird =>
      rw [if_pos hthird]
      exact ⟨_, hstop hvex, rfl, ht.got, ht.rest, (ht.leftover (by decide) _).setThird _⟩
    case isFalse hthird =>
      rw [if_neg hthird]
      exact ⟨_, hstop hvex, rfl, ht.got, ht.rest, ht.leftover (by decide) _⟩

def Insn.Vex (i : Fin 4) (s : Insn) : Prop := s.vexPrefix.value.get i ≠ 0

theorem Insn.hasVex_of_vex (h : s.Vex 0) : s.hasVex := by
  rw [Insn.hasVex, decide_eq_true_iff]
  intro heq
  apply h
  rw [heq]
  rfl

theorem extends_of_keeps {α : Type} {q : Stage Insn α} (h : Keeps Insn.vexPrefix q) :
    Extends (Insn.Vex 0) q q (fun _ => Insn.Vex 0) (Insn.Vex 0) := by
  intro s hs
  have hkeep := h s
  rw [Stage.exec] at hkeep
  have hfirst : (q.eval s).2.Vex 0 := by
    rw [Insn.Vex, hkeep]
    exact hs
  rcases heval : q.eval s with ⟨_ | a, t⟩ <;> rw [heval] at hfirst
  · exact .inr ⟨t, rfl, hfirst⟩
  · exact .inl ⟨a, t, rfl, rfl, hfirst⟩

theorem Insn.Vex.setVexByte (h : s.Vex 0) {i : Fin 4} (hi : i ≠ 0) (b : UInt8) :
    (s.setVexByte i b).Vex 0 := by
  rw [Insn.Vex, setVexByte_get_ne hi]
  exact h

theorem extends_firstVex : Extends (Insn.Vex 0) (prefixesBody buf e) (prefixesBody buf e)
    (fun _ => Insn.Vex 0) (Insn.Vex 0) := by
  have hpeek (n : ℕ) := extends_of_keeps (keeps_peek buf e n)
  refine .read fun s _ => .bind (extends_of_keeps (keeps_legacyPrefixes buf e (fun _ _ _ _ => rfl)
    (fun _ => rfl) _ 0 0)) fun last => .bind (extends_of_keeps
    (.modify (setLastPrefix_vexPrefix last.1 last.2))) fun _ => ?_
  refine .bind (K := fun _ => Insn.Vex 0) (.read fun s _ => .ite (fun _ => ?_) fun _ => ?_)
    fun _ => ?_
  · refine .bind (hpeek 0) fun b => .ite (fun _ => .modify fun s hs => hs) fun _ => ?_
    exact .pure fun s hs => hs
  · exact .pure fun s hs => hs
  refine .bind (extends_of_keeps (.modify fun _ => rfl)) fun _ =>
    .bind (K := fun _ => Insn.Vex 0) ?_ fun _ => .modify fun s hs => hs
  refine .bind (hpeek 0) fun b => .ite (fun hvex => ?_) fun _ => .pure fun s hs => hs
  refine .bind (hpeek 1) fun b2 => .read fun s _ => .ite (fun _ => .pure fun s hs => hs) fun _ => ?_
  have hb : b ≠ 0 := by
    rintro rfl
    exact absurd hvex (by decide)
  have hfirst (s : Insn) : (s.setVexByte 0 b).Vex 0 := by
    rw [Insn.Vex, setVexByte_get_self]
    exact hb
  have hset {i : Fin 4} (hi : i ≠ 0) (b : UInt8) :
      Extends (Insn.Vex 0) (modify (Insn.setVexByte i b)) (modify (Insn.setVexByte i b))
        (fun _ => Insn.Vex 0) (Insn.Vex 0) :=
    .modify fun s hs => Insn.Vex.setVexByte hs hi b
  refine .bind (.modify fun s _ => hfirst s) fun _ => .bind (hset (by decide) b2) fun _ => ?_
  refine .ite (fun _ => ?_) fun _ => .ite (fun _ => ?_) fun _ => ?_
  · refine .bind (hpeek 2) fun b3 => .bind (hset (by decide) b3) fun _ => ?_
    refine .bind (hpeek 3) fun b4 => .bind (hset (by decide) b4) fun _ => ?_
    exact .modify fun s hs => hs
  · refine .bind (hpeek 2) fun b3 => .bind (hset (by decide) b3) fun _ => ?_
    exact .modify fun s hs => hs
  · exact .bind (hset (by decide) _) fun _ => .modify fun s hs => hs

theorem insnGetPrefixes_firstVex (h : s.Vex 0) : (insnGetPrefixes buf e s).Vex 0 := by
  rw [insnGetPrefixes]
  split
  · exact h
  · rcases (@extends_firstVex buf e).exec_eq h with ⟨-, -, hfirst⟩ | hfirst
    · exact hfirst
    · exact hfirst

theorem Chooses.avx {b3 : UInt8} (h : Chooses b2 b3 s) : s.hasVex :=
  Insn.hasVex_of_vex h.hasVex

theorem insnGetOpcode_vex {attr : Attr} {b3 : UInt8} (hs : insnGetPrefixes buf e (.init x86_64) = s)
    (hlt : s.nextByte < e) (ht : insnGetPrefixes buf e ((s.skip 1).setOpcode (buf s.nextByte)) = t)
    (hvex : Chooses b2 b3 t)
    (hattr : getAvxAttribute (buf s.nextByte) (b2.toNat % 4) (b3.toNat % 4) = attr)
    (hmust : mustEvex attr = false) :
    insnGetOpcode buf e (.init x86_64) =
      markOpcode (t.setAttr (if acceptVex attr || isGroup attr then attr else 0)) := by
  have havx : (insnIsAvx buf e).eval ((s.skip 1).setOpcode (buf s.nextByte)) = (some true, t) := by
    rw [insnIsAvx, eval_modify_bind, ht, eval_get_bind, hvex.avx, eval_pure]
  have hchoose : (avxAttribute buf e (buf s.nextByte)).eval t =
      (some (), t.setAttr (if acceptVex attr || isGroup attr then attr else 0)) := by
    have hlacks : lacksEvex buf e attr = pure false := if_neg (Bool.eq_false_iff.mp hmust)
    rw [avxAttribute, eval_modify_bind, hvex.mBits, hvex.pBits, hattr, eval_get_bind]
    have hget : (t.setAttr attr).attr = attr := rfl
    rw [hget, hlacks, eval_bind_some (eval_pure false _)]
    cases acceptVex attr <;> cases isGroup attr <;> rfl
  have hbody : (opcodeBody buf e).eval s =
      (some (), t.setAttr (if acceptVex attr || isGroup attr then attr else 0)) := by
    rw [opcodeBody, eval_bind_some (getNextByte_of_lt hlt), eval_modify_bind, eval_bind_some havx]
    exact hchoose
  rw [insnGetOpcode_init, hs]
  exact exec_of_eval (eval_bind_some hbody)

theorem modrmBody_bare (h : s.attr = 0) : (modrmBody buf e).eval s = (some (), s) := by
  have hbyte : (modrmByte buf e).eval s = (some (), s) := by
    rw [modrmByte, eval_get_bind, h, if_neg (by decide), eval_pure]
  have hforce : ¬ (s.x86_64 ∧ isForce64 s.attr) := fun hs => absurd hs.2 (by rw [h]; decide)
  rw [modrmBody, eval_bind_some hbyte, eval_modify, if_neg hforce]

theorem sibBody_bare (h : s.modrm.nbytes = 0) : (sibBody buf e).eval s = (some (), s) := by
  rw [sibBody, eval_get_bind, if_neg fun hs => hs.1 h, eval_pure]

theorem displacementBody_bare (h : s.displacementSize = 0) :
    (displacementBody buf e).eval s = (some (), s) := by
  rw [displacementBody, eval_get_bind, if_pos h, eval_pure]

theorem immediateBody_bare (hoff : hasMoffset s.attr = false) (h : hasImmediate s.attr = false) :
    (immediateBody buf e).eval s = (some (), s) := by
  rw [immediateBody, eval_get_bind, hoff, h, if_neg (by decide), if_neg (by decide), eval_pure]

theorem insnGetImmediate_bare (hmod : t.modrm.nbytes = 0)
    (h : insnGetOpcode buf e (.init x86_64) = markOpcode (t.setAttr 0)) :
    insnGetImmediate buf e (.init x86_64) =
      markImmediate (markDisplacement (markSib (markModrm (markOpcode (t.setAttr 0))))) := by
  have hmodrm : insnGetModrm buf e (.init x86_64) = markModrm (markOpcode (t.setAttr 0)) := by
    rw [insnGetModrm_init, h]
    exact exec_of_eval (eval_bind_some (modrmBody_bare rfl))
  have hsib : insnGetSib buf e (.init x86_64) =
      markSib (markModrm (markOpcode (t.setAttr 0))) := by
    rw [insnGetSib_init, hmodrm]
    exact exec_of_eval (eval_bind_some (sibBody_bare hmod))
  have hdisplacement : insnGetDisplacement buf e (.init x86_64) =
      markDisplacement (markSib (markModrm (markOpcode (t.setAttr 0)))) := by
    rw [insnGetDisplacement_init, hsib]
    exact exec_of_eval (eval_bind_some (displacementBody_bare (if_pos (.inl hmod))))
  rw [insnGetImmediate_init, hdisplacement]
  exact exec_of_eval (eval_bind_some (immediateBody_bare (by decide : hasMoffset 0 = false)
    (by decide : hasImmediate 0 = false)))

end Cut

section Modrm

variable {buf : Memory} {e : ℕ} {s u : Insn}

theorem eval_of_got {body : Stage Insn Unit} {mark : Insn → Insn} (flag : Gots → Bool)
    (hkeep : Keeps Insn.gots body) {gots : Gots} (hgots : s.gots = gots)
    (hclear : flag gots = false) (hset : flag (Stage.exec (do body; modify mark) s).gots) :
    ∃ u, body.eval s = (some (), u) ∧ u.gots = gots ∧
      Stage.exec (do body; modify mark) s = mark u := by
  have hkept := (hkeep s).trans hgots
  rcases heval : body.eval s with ⟨_ | _, u⟩ <;> rw [exec_of_eval heval] at hkept
  · have hexec : Stage.exec (do body; modify mark) s = u := exec_of_eval (eval_bind_none heval)
    rw [hexec, hkept, hclear] at hset
    cases hset
  · exact ⟨u, rfl, hkept, exec_of_eval (eval_bind_some heval)⟩

theorem modrmBody_of_end (h : e ≤ s.nextByte) (hmod : hasModrm s.attr) :
    (modrmBody buf e).eval s = (none, s) := by
  apply eval_bind_none
  rw [modrmByte, eval_get_bind, if_pos hmod]
  exact eval_bind_none (getNextByte_of_end h)

theorem modrmBody_some (hmod : hasModrm s.attr) (hgroup : isGroup s.attr = false)
    (h : (modrmBody buf e).eval s = (some (), u)) :
    u.nextByte = s.nextByte + 1 ∧ u.modrm = { s.modrm with value := buf s.nextByte, nbytes := 1 } ∧
      u.attr = s.attr ∧ u.addrBytes = s.addrBytes ∧ u.sib = s.sib := by
  rcases Nat.lt_or_ge s.nextByte e with hlt | hge
  · have hbyte : (modrmByte buf e).eval s = (some (), { s.skip 1 with
        modrm.value := buf s.nextByte, modrm.nbytes := 1 }) := by
      rw [modrmByte, eval_get_bind, if_pos hmod, eval_bind_some (getNextByte_of_lt hlt),
        eval_modify_bind, groupAttribute, eval_get_bind]
      exact congrArg (Stage.eval · _) (if_neg (Bool.eq_false_iff.mp hgroup))
    rw [modrmBody, eval_bind_some hbyte, eval_modify, Prod.mk.injEq] at h
    rw [← h.2]
    exact ⟨rfl, rfl, rfl, rfl, rfl⟩
  · rw [modrmBody_of_end hge hmod] at h
    cases h

/-- A SIB behind ModRM. -/
def Insn.hasSib (s : Insn) : Prop :=
  s.modrm.nbytes ≠ 0 ∧ s.addrBytes ≠ 2 ∧ modrmMod s.modrm.value ≠ 3 ∧ modrmRm s.modrm.value = 4

theorem sibBody_some (h : (sibBody buf e).eval s = (some (), u)) :
    ∃ j ≤ 1, u.nextByte = s.nextByte + j ∧ u.attr = s.attr ∧ (j = 0 ↔ ¬ s.hasSib) ∧
      (j = 0 → u = s) := by
  rw [sibBody, eval_get_bind] at h
  split at h
  case isTrue hsib =>
    rcases Nat.lt_or_ge s.nextByte e with hlt | hge
    · rw [eval_bind_some (getNextByte_of_lt hlt), eval_modify, Prod.mk.injEq] at h
      rw [← h.2]
      exact ⟨1, le_rfl, rfl, rfl, ⟨fun h => by omega, fun h => absurd hsib h⟩, fun h => by omega⟩
    · rw [eval_bind_none (getNextByte_of_end hge)] at h
      cases h
  case isFalse hsib =>
    rw [← (Prod.mk.inj h).2]
    exact ⟨0, Nat.zero_le 1, rfl, rfl, ⟨fun _ => hsib, fun _ => rfl⟩, fun _ => rfl⟩

theorem getNextSigned_cases (buf : Memory) (e size : ℕ) (s : Insn) :
    (getNextSigned buf e size).eval s = (none, s) ∨
      ∃ v, (getNextSigned buf e size).eval s = (some v, s.skip size) := by
  rw [getNextSigned, map_eq_pure_bind]
  by_cases hle : s.nextByte + size ≤ e
  · have hnext : (getNext buf e size).eval s =
        (some (ofBytes (bytesAt buf s.nextByte size)), s.skip size) := by
      rw [getNext, eval_get_bind, if_pos hle]
      rfl
    exact .inr ⟨_, eval_bind_some hnext⟩
  · have hnext : (getNext buf e size).eval s = (none, s) := by
      rw [getNext, eval_get_bind, if_neg hle, eval_failure]
    exact .inl (eval_bind_none hnext)

theorem displacementBody_some (h : (displacementBody buf e).eval s = (some (), u)) :
    u.nextByte = s.nextByte + s.displacementSize ∧ u.attr = s.attr := by
  rw [displacementBody, eval_get_bind] at h
  split at h
  case isTrue hsize =>
    rw [← (Prod.mk.inj h).2, hsize]
    exact ⟨rfl, rfl⟩
  case isFalse =>
    rw [getDisplacement] at h
    rcases getNextSigned_cases buf e s.displacementSize s with heval | ⟨v, heval⟩
    · rw [eval_bind_none heval] at h
      cases h
    · rw [eval_bind_some heval, eval_modify, Prod.mk.injEq] at h
      rw [← h.2]
      exact ⟨rfl, rfl⟩

theorem displacementSize_le (s : Insn) : s.displacementSize ≤ 4 := by
  rw [Insn.displacementSize]
  split_ifs <;> decide

theorem immediateBody_byte (hoff : hasMoffset s.attr = false)
    (himm : immediateSize s.attr = immByte) (hsecond : hasSecondImmediate s.attr = false)
    (hclear : s.immediate.got = false)
    (hgot : (Stage.exec (do immediateBody buf e; modify markImmediate) s).immediate.got) :
    (Stage.exec (do immediateBody buf e; modify markImmediate) s).nextByte = s.nextByte + 1 := by
  have hhas : hasImmediate s.attr := by
    rw [hasImmediate, himm]
    rfl
  have hbody : (immediateBody buf e).eval s =
      Stage.eval (do getImmediate buf e 1; pure ()) s := by
    rw [immediateBody, eval_get_bind, hoff, if_neg (by decide), if_pos hhas, himm, hsecond]
    rfl
  rcases getNextSigned_cases buf e 1 s with heval | ⟨v, heval⟩
  · have hnone : (immediateBody buf e).eval s = (none, s) :=
      hbody.trans (eval_bind_none (eval_bind_none heval))
    rw [exec_of_eval (eval_bind_none hnone), hclear] at hgot
    cases hgot
  · have himmediate : (getImmediate buf e 1).eval s =
        (some (), { s.skip 1 with immediate.value := v, immediate.nbytes := 1 }) :=
      eval_bind_some heval
    have hsome : (immediateBody buf e).eval s =
        (some (), { s.skip 1 with immediate.value := v, immediate.nbytes := 1 }) :=
      hbody.trans (eval_bind_some himmediate)
    have hexec : Stage.exec (do immediateBody buf e; modify markImmediate) s =
        markImmediate { s.skip 1 with immediate.value := v, immediate.nbytes := 1 } :=
      exec_of_eval (eval_bind_some hsome)
    rw [hexec]
    rfl

theorem immediate_some (hoff : hasMoffset s.attr = false)
    (himm : hasImmediate s.attr → immediateSize s.attr = immByte)
    (hsecond : hasSecondImmediate s.attr = false) (hclear : s.immediate.got = false)
    (hgot : (Stage.exec (do immediateBody buf e; modify markImmediate) s).immediate.got) :
    ∃ i ≤ 1, (Stage.exec (do immediateBody buf e; modify markImmediate) s).nextByte =
      s.nextByte + i ∧ (i = 0 ↔ hasImmediate s.attr = false) := by
  cases hhas : hasImmediate s.attr with
  | true => exact ⟨1, le_rfl, immediateBody_byte hoff (himm hhas) hsecond hclear hgot, by simp⟩
  | false =>
    have hexec : Stage.exec (do immediateBody buf e; modify markImmediate) s = markImmediate s :=
      exec_of_eval (eval_bind_some (immediateBody_bare hoff hhas))
    rw [hexec]
    exact ⟨0, Nat.zero_le 1, rfl, by simp⟩

theorem nextByte_of_modrm {x86_64 : Bool} {o : Insn} (ho : insnGetOpcode buf e (.init x86_64) = o)
    (hmod : hasModrm o.attr) (hgroup : isGroup o.attr = false) (hoff : hasMoffset o.attr = false)
    (hsecond : hasSecondImmediate o.attr = false)
    (himm : hasImmediate o.attr → immediateSize o.attr = immByte)
    (hgots : o.gots = { opcode := true }) (h : (insnGetImmediate buf e (.init x86_64)).complete) :
    ∃ m : Insn, m.modrm.value = buf o.nextByte ∧ m.modrm.nbytes = 1 ∧
      m.addrBytes = o.addrBytes ∧ m.sib = o.sib ∧ ∃ more ≤ 6,
        (insnGetImmediate buf e (.init x86_64)).nextByte = o.nextByte + 1 + more ∧
        (more = 0 ↔ ¬ m.hasSib ∧ m.displacementSize = 0 ∧ hasImmediate o.attr = false) := by
  obtain ⟨-, hmodrm, hsib, hdisplacement, himmediate⟩ := gots_of_complete h
  rw [insnGetModrm_init, ho] at hmodrm
  obtain ⟨u, hu, hugots, hmodrm'⟩ := eval_of_got Gots.modrm (keeps_modrmBody buf e) hgots rfl hmodrm
  rw [← ho, ← insnGetModrm_init] at hmodrm'
  rw [insnGetSib_init, hmodrm'] at hsib
  obtain ⟨v, hv, hvgots, hsib'⟩ := eval_of_got (s := markModrm u) Gots.sib (keeps_sibBody buf e)
    (congrArg (fun g => { g with modrm := true }) hugots) rfl hsib
  rw [← hmodrm', ← insnGetSib_init] at hsib'
  rw [insnGetDisplacement_init, hsib'] at hdisplacement
  obtain ⟨w, hw, hwgots, hdisp'⟩ := eval_of_got (s := markSib v) Gots.displacement
    (keeps_displacementBody buf e) (congrArg (fun g => { g with sib := true }) hvgots) rfl
    hdisplacement
  rw [← hsib', ← insnGetDisplacement_init] at hdisp'
  obtain ⟨hunext, humodrm, huattr, huaddr, husib⟩ := modrmBody_some hmod hgroup hu
  obtain ⟨hwnext, hwattr⟩ := displacementBody_some hw
  refine ⟨markModrm u, congrArg Field.value humodrm, congrArg Field.nbytes humodrm, huaddr,
    husib, ?_⟩
  obtain ⟨j, hj, hvnext, hvattr, hjsib, hjeq⟩ := sibBody_some hv
  have hattr : (markDisplacement w).attr = o.attr := (hwattr.trans hvattr).trans huattr
  rw [insnGetImmediate_init, hdisp'] at himmediate ⊢
  obtain ⟨i, hi, hnext, hihas⟩ := immediate_some (s := markDisplacement w) (hattr ▸ hoff)
    (hattr ▸ himm) (hattr ▸ hsecond) (congrArg Gots.immediate hwgots) himmediate
  have hsize := displacementSize_le (markSib v)
  refine ⟨j + (markSib v).displacementSize + i, by omega, ?_, ?_⟩
  · have hu' : (markModrm u).nextByte = u.nextByte := rfl
    have hv' : (markSib v).nextByte = v.nextByte := rfl
    have hw' : (markDisplacement w).nextByte = w.nextByte := rfl
    omega
  · rw [hattr] at hihas
    rw [Nat.add_eq_zero_iff, Nat.add_eq_zero_iff, hjsib, hihas, and_assoc]
    refine and_congr_right fun hnone => ?_
    rw [hjeq (hjsib.mpr hnone)]
    rfl

end Modrm

section Result

variable {buf : Memory} {n p : ℕ} {x86_64 : Bool} {insn : Decode.Insn}

theorem bufferEnd_eq (h : n < 2 ^ 31) : bufferEnd n = min n 15 := by
  have hint : (Int32.ofNat n).toInt = n := Int32.toInt_ofNat_of_lt h
  rw [bufferEnd, hint, maxInsnSize]
  omega

example : bufferEnd (2 ^ 31) = 0 := by decide

theorem intelPtGetInsn_eq_some : intelPtGetInsn buf n x86_64 = some insn ↔
    (insnGetImmediate buf (bufferEnd n) (.init x86_64)).complete ∧
      (insnGetImmediate buf (bufferEnd n) (.init x86_64)).nextByte % 256 ≤ n ∧
      intelPtInsnDecoder buf (bufferEnd n)
        (insnGetImmediate buf (bufferEnd n) (.init x86_64)).setLength = insn := by
  have hlength : insnGetLength buf (bufferEnd n) (.init x86_64) =
      (insnGetImmediate buf (bufferEnd n) (.init x86_64)).setLength := rfl
  rw [intelPtGetInsn, hlength]
  simp [Insn.complete, Insn.setLength, and_assoc]

theorem intelPtInsnDecoder_vex {s : Insn} (h : s.Vex 0) (hlt : s.nextByte ≤ 15) (e : ℕ) :
    intelPtInsnDecoder buf e s.setLength = bareInsn buf s.nextByte := by
  have hvex : (insnGetPrefixes buf e s.setLength).hasVex :=
    Insn.hasVex_of_vex (insnGetPrefixes_firstVex (s := s.setLength) h)
  have hlength : (insnGetPrefixes buf e s.setLength).length = s.nextByte :=
    (congrArg Rest.length (insnGetPrefixes_rest buf e s.setLength)).trans
      (Nat.mod_eq_of_lt (by omega))
  rw [intelPtInsnDecoder]
  dsimp only
  rw [if_pos hvex, hlength, Nat.min_eq_left (by omega), bareInsn]

theorem intelPtGetInsn_bare {t : Insn} (hn : n < 2 ^ 31) (ht : t.Vex 0)
    (hmod : t.modrm.nbytes = 0) (hle : t.nextByte ≤ min n 15)
    (h : insnGetOpcode buf (min n 15) (.init x86_64) = markOpcode (t.setAttr 0)) :
    intelPtGetInsn buf n x86_64 = some (bareInsn buf t.nextByte) := by
  obtain ⟨s, hs, hcomplete, hfirst, hnext⟩ : ∃ s,
      insnGetImmediate buf (min n 15) (.init x86_64) = s ∧ s.complete ∧ s.Vex 0 ∧
        s.nextByte = t.nextByte :=
    ⟨_, insnGetImmediate_bare hmod h, rfl, ht, rfl⟩
  rw [← hnext] at hle
  rw [intelPtGetInsn_eq_some, bufferEnd_eq hn, hs, ← hnext]
  exact ⟨hcomplete, by omega, intelPtInsnDecoder_vex hfirst (by omega) _⟩

def refusesVex (attr : Attr) : Bool := !mustEvex attr && !acceptVex attr && !isGroup attr

theorem refusesVex_two : ∀ m < 4, refusesVex (getAvxAttribute 0xc4 m 0) ∧
    refusesVex (getAvxAttribute 0x62 m 0) := by
  decide +kernel

theorem refusesVex_three : ∀ m < 4, ∀ q < 4, ¬ (m % 2 = 1 ∧ q = 1) →
    refusesVex (getAvxAttribute 0x62 m q) := by
  decide +kernel

structure CutAt (buf : Memory) (e p passed : ℕ) (x86_64 : Bool) (b2 b3 : UInt8) (t : Insn) :
    Prop where
  next : t.nextByte = p + 1 + passed
  rest : t.rest = (Insn.init x86_64).rest
  firstVex : t.Vex 0
  opcode : ∀ attr, getAvxAttribute (buf p) (b2.toNat % 4) (b3.toNat % 4) = attr →
    mustEvex attr = false → insnGetOpcode buf e (.init x86_64) =
      markOpcode (t.setAttr (if acceptVex attr || isGroup attr then attr else 0))

section CutAt

variable {e passed : ℕ} {b2 b3 : UInt8} {s t : Insn}

theorem CutAt.intro (hs : insnGetPrefixes buf e (.init x86_64) = s) (hp : s.nextByte = p)
    (hlt : p < e) (hrest : s.rest = (Insn.init x86_64).rest)
    (ht : insnGetPrefixes buf e ((s.skip 1).setOpcode (buf p)) = t)
    (hnext : t.nextByte = p + 1 + passed) (hchooses : Chooses b2 b3 t) :
    CutAt buf e p passed x86_64 b2 b3 t := by
  subst hp
  refine ⟨hnext, ?_, hchooses.hasVex, fun attr => insnGetOpcode_vex hs hlt ht hchooses⟩
  rw [← ht, ← hrest]
  exact insnGetPrefixes_rest buf e _

theorem cutAt_two (h : LongVexAt buf x86_64 p) (he : e = p + 2) :
    ∃ t, CutAt buf e p (passedOne x86_64 (buf (p + 1))) x86_64 (buf (p + 1)) 0 t := by
  have hends : EndsInVex buf e p := ⟨he.ge, h.first.imp (⟨·, by omega⟩) (⟨·, by omega⟩)⟩
  obtain ⟨s, hs, rfl, hgot, hrest, hleft⟩ := h.leftover hends
  rw [if_neg (by omega)] at hleft
  obtain ⟨hnext, hvalue, hnbytes⟩ := reread_one buf
    (s := (s.skip 1).setOpcode (buf s.nextByte)) hgot he.symm
  have hchooses := (hleft.of_eq hvalue hnbytes).chooses
  have hmode : ((s.skip 1).setOpcode (buf s.nextByte)).x86_64 = x86_64 := congrArg Rest.x86_64 hrest
  rw [hmode] at hnext
  exact ⟨_, .intro hs rfl (by omega) hrest rfl hnext hchooses⟩

theorem cutAt_three (h : LongVexAt buf x86_64 p) (hb : buf p = 0x62) (he : e = p + 3) :
    ∃ t, CutAt buf e p (passedTwo x86_64 (buf (p + 1)) (buf (p + 2))) x86_64
      (mapByte x86_64 (buf (p + 1)) (buf (p + 2))) (buf (p + 2)) t := by
  have hends : EndsInVex buf e p := ⟨by omega, .inr ⟨hb, by omega⟩⟩
  obtain ⟨s, hs, rfl, hgot, hrest, hleft⟩ := h.leftover hends
  rw [if_pos (by omega)] at hleft
  obtain ⟨hnext, hchooses⟩ := reread_two (s := (s.skip 1).setOpcode (buf s.nextByte)) hgot he.symm
    rfl rfl (hleft.of_eq rfl rfl)
  have hmode : ((s.skip 1).setOpcode (buf s.nextByte)).x86_64 = x86_64 := congrArg Rest.x86_64 hrest
  rw [hmode] at hnext hchooses
  exact ⟨_, .intro hs rfl (by omega) hrest rfl hnext hchooses⟩

theorem CutAt.refused (h : CutAt buf (min n 15) p passed x86_64 b2 b3 t) (hn : n < 2 ^ 31)
    (hle : p + 1 + passed ≤ min n 15)
    (hattr : refusesVex (getAvxAttribute (buf p) (b2.toNat % 4) (b3.toNat % 4))) :
    intelPtGetInsn buf n x86_64 = some (bareInsn buf (p + 1 + passed)) := by
  rw [refusesVex, Bool.and_eq_true, Bool.and_eq_true, Bool.not_eq_true', Bool.not_eq_true',
    Bool.not_eq_true'] at hattr
  obtain ⟨⟨hmust, haccept⟩, hgroup⟩ := hattr
  have hopcode := h.opcode _ rfl hmust
  rw [haccept, hgroup] at hopcode
  rw [← h.next] at hle ⊢
  exact intelPtGetInsn_bare hn h.firstVex (congrArg Rest.modrmBytes h.rest) hle hopcode

end CutAt

theorem intelPtGetInsn_cut_two (h : LongVexAt buf x86_64 p) (hn : n < 2 ^ 31)
    (he : min n 15 = p + 2) : intelPtGetInsn buf n x86_64 =
      some (bareInsn buf (p + 1 + passedOne x86_64 (buf (p + 1)))) := by
  obtain ⟨t, ht⟩ := cutAt_two h he
  have hm : (buf (p + 1)).toNat % 4 < 4 := Nat.mod_lt _ (by decide)
  refine ht.refused hn ?_ ?_
  · have := passedOne_le x86_64 (buf (p + 1))
    omega
  · rcases h.first with hb | hb <;> rw [hb]
    · exact (refusesVex_two _ hm).1
    · exact (refusesVex_two _ hm).2

theorem intelPtGetInsn_cut_three (h : LongVexAt buf x86_64 p) (hn : n < 2 ^ 31)
    (hb : buf p = 0x62) (he : min n 15 = p + 3)
    (hop : ¬ AsOpcode x86_64 (buf (p + 1)) (buf (p + 2))) : intelPtGetInsn buf n x86_64 =
      some (bareInsn buf (p + 1 + passedTwo x86_64 (buf (p + 1)) (buf (p + 2)))) := by
  obtain ⟨t, ht⟩ := cutAt_three h hb he
  refine ht.refused hn ?_ ?_
  · have := passedTwo_le x86_64 (buf (p + 1)) (buf (p + 2))
    omega
  · rw [hb]
    apply refusesVex_three _ (Nat.mod_lt _ (by decide)) _ (Nat.mod_lt _ (by decide))
    rwa [Nat.mod_mod_of_dvd _ (by decide)]

theorem intelPtInsnDecoder_length (buf : Memory) (e : ℕ) (s : Insn) :
    (intelPtInsnDecoder buf e s.setLength).length = s.nextByte % 256 := by
  have hlength : (insnGetPrefixes buf e s.setLength).length = s.nextByte % 256 :=
    congrArg Rest.length (insnGetPrefixes_rest buf e s.setLength)
  rw [intelPtInsnDecoder]
  dsimp only
  split <;> exact hlength

theorem avx_opcode : ∀ m < 4, m % 2 = 1 →
    mustEvex (getAvxAttribute 0x62 m 1) = false ∧ acceptVex (getAvxAttribute 0x62 m 1) ∧
      hasModrm (getAvxAttribute 0x62 m 1) ∧ isGroup (getAvxAttribute 0x62 m 1) = false ∧
      hasMoffset (getAvxAttribute 0x62 m 1) = false ∧
      hasSecondImmediate (getAvxAttribute 0x62 m 1) = false ∧
      (hasImmediate (getAvxAttribute 0x62 m 1) →
        immediateSize (getAvxAttribute 0x62 m 1) = immByte) ∧
      (hasImmediate (getAvxAttribute 0x62 m 1) = false ↔ m = 1) := by
  decide +kernel

theorem lastModrm_byte (b : UInt8) (h : ¬ 0xc0 ≤ b) : (¬ modrmRm b = 4 ∧
    (if modrmMod b = 1 then 1 else
      if modrmMod b = 0 ∧ modrmRm b = 5 ∨ modrmMod b = 2 then 4 else 0) = 0) ↔ lastModrm b :=
  forall_byte (P := fun b => ¬ 0xc0 ≤ b → ((¬ modrmRm b = 4 ∧
    (if modrmMod b = 1 then 1 else
      if modrmMod b = 0 ∧ modrmRm b = 5 ∨ modrmMod b = 2 then 4 else 0) = 0) ↔ lastModrm b))
    (by decide +kernel) b h

theorem lastModrm_iff {m : Insn} {b : UInt8} (hb : m.modrm.value = b) (hbytes : m.modrm.nbytes = 1)
    (hsib : m.sib.value = 0) (haddr : 0xc0 ≤ b ∨ m.addrBytes ≠ 2) :
    (¬ m.hasSib ∧ m.displacementSize = 0) ↔ lastModrm b := by
  have hbase : modrmRm 0 ≠ 5 := by decide
  rw [Insn.hasSib, Insn.displacementSize, hb, hbytes, hsib]
  by_cases hmod : 0xc0 ≤ b
  · have hthree : modrmMod b = 3 := (modrmMod_eq_three b).mpr hmod
    simp [hthree, lastModrm, hmod]
  · have hthree : modrmMod b ≠ 3 := fun h => hmod ((modrmMod_eq_three b).mp h)
    rw [← lastModrm_byte b hmod]
    simp [hthree, hbase, haddr.resolve_left hmod]

theorem addrBytes_of_rest {s : Insn} (hmode : x86_64 = true)
    (h : s.rest = (Insn.init x86_64).rest) : s.addrBytes ≠ 2 := by
  subst hmode
  have hwide : (s.x86_64 && (s.addrBytes == 4 || s.addrBytes == 8)) = true := congrArg Rest.wide h
  rintro htwo
  rw [htwo, Bool.and_eq_true] at hwide
  exact absurd hwide.2 (by decide)

theorem length_cut_three (h : LongVexAt buf x86_64 p) (hn : n < 2 ^ 31) (hb : buf p = 0x62)
    (he : min n 15 = p + 3) (hop : AsOpcode x86_64 (buf (p + 1)) (buf (p + 2)))
    (hsome : intelPtGetInsn buf n x86_64 = some insn) :
    p + 1 + passedTwo x86_64 (buf (p + 1)) (buf (p + 2)) < insn.length ∧
      (insn.length ≤ p + 2 ↔ passedTwo x86_64 (buf (p + 1)) (buf (p + 2)) = 0 ∧
        (mapByte x86_64 (buf (p + 1)) (buf (p + 2))).toNat % 4 = 1 ∧ lastModrm (buf (p + 1))) := by
  obtain ⟨t, hnext, hrest, -, hopcode⟩ := cutAt_three h hb he
  have hpassed := passedTwo_le x86_64 (buf (p + 1)) (buf (p + 2))
  have hodd := hop.1
  rw [← Nat.mod_mod_of_dvd _ (by decide : 2 ∣ 4)] at hodd
  obtain ⟨hmust, haccept, hmod, hgroup, hoff, hsecond, himm, hone⟩ :=
    avx_opcode _ (Nat.mod_lt _ (by decide)) hodd
  have hopc := hopcode _ rfl (by rw [hb, hop.2]; exact hmust)
  rw [hb, hop.2, haccept, Bool.true_or, if_pos rfl] at hopc
  have hgots : t.gots = {} := congrArg Rest.gots hrest
  obtain ⟨hcomplete, -, hinsn⟩ := intelPtGetInsn_eq_some.mp hsome
  rw [bufferEnd_eq hn] at hcomplete hinsn
  obtain ⟨r, hmodrm, hbytes, haddr, hsib, more, hmore, hfinal, hzero⟩ := nextByte_of_modrm hopc
    hmod hgroup hoff hsecond himm (congrArg (fun g => { g with opcode := true }) hgots) hcomplete
  have hlength : insn.length = t.nextByte + 1 + more := by
    rw [← hinsn, intelPtInsnDecoder_length, hfinal]
    exact Nat.mod_eq_of_lt (by simp only [markOpcode, Insn.setAttr]; omega)
  have haddr : 0xc0 ≤ buf (p + 1) ∨ r.addrBytes ≠ 2 := by
    have hmode := h.second
    rw [vexSecond, decide_eq_true_iff] at hmode
    refine hmode.symm.imp_right fun hmode => ?_
    rw [haddr]
    exact addrBytes_of_rest (s := t) hmode hrest
  refine ⟨by omega, ?_⟩
  have hshort : insn.length ≤ p + 2 ↔
      passedTwo x86_64 (buf (p + 1)) (buf (p + 2)) = 0 ∧ more = 0 := by omega
  rw [hshort, hzero]
  refine and_congr_right fun hnone => ?_
  have hbyte : r.modrm.value = buf (p + 1) := by
    rw [hnone] at hnext
    exact hmodrm.trans (congrArg buf hnext)
  have hsib0 : r.sib.value = 0 := (congrArg Field.value hsib).trans (congrArg Rest.sib hrest)
  rw [← and_assoc, lastModrm_iff hbyte hbytes hsib0 haddr, and_comm]
  exact and_congr_left fun _ => hone

end Result

end RPerf.X86
