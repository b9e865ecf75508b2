import RPerf.X86.MoreBytes
import RPerf.X86.StageFlags

/-!
# Where a VEX prefix lies

The prefix stage goes over the legacy prefixes, of which it takes no more than four
different ones, and in 64-bit mode over a REX prefix.
-/

namespace RPerf.X86

open Lib Inat Stage

section

variable (b : UInt8)

def legacyByte : Bool :=
  b ∈ ([0x26, 0x2e, 0x36, 0x3e, 0x64, 0x65, 0x66, 0x67, 0xf0, 0xf2, 0xf3] : List UInt8)

def rexByte : Bool := 0x40 ≤ b ∧ b ≤ 0x4f

def vexByte : Bool := b = 0xc4 ∨ b = 0xc5 ∨ b = 0x62

def vexSecond (x86_64 : Bool) (b2 : UInt8) : Bool := x86_64 ∨ 0xc0 ≤ b2

/-- At most four different legacy prefixes, repeated or not. -/
def LegacyRun (buf : Memory) (q : ℕ) : Prop :=
  (∀ i < q, legacyByte (buf i)) ∧ ((Finset.range q).image buf).card ≤ 4

/-- The legacy prefixes end at `q`. -/
def LegacyEnd (buf : Memory) (q : ℕ) : Prop := LegacyRun buf q ∧ ¬ LegacyRun buf (q + 1)

def FrontEnd (buf : Memory) (x86_64 : Bool) (p : ℕ) : Prop :=
  ∃ q, LegacyEnd buf q ∧ p = if x86_64 && rexByte (buf q) then q + 1 else q

/-- There is a VEX prefix of three or of four bytes at `p`. -/
structure LongVexAt (buf : Memory) (x86_64 : Bool) (p : ℕ) : Prop where
  front : FrontEnd buf x86_64 p
  first : buf p = 0xc4 ∨ buf p = 0x62
  second : vexSecond x86_64 (buf (p + 1))

theorem forall_byte {P : UInt8 → Prop} (h : ∀ i : Fin 256, P (UInt8.ofFin i)) (b : UInt8) : P b :=
  h b.toFin

theorem prefix_opcode : isLegacyPrefix (getOpcodeAttribute b) = legacyByte b ∧
    isRexPrefix (getOpcodeAttribute b) = rexByte b ∧
    isVexPrefix (getOpcodeAttribute b) = vexByte b :=
  forall_byte (P := fun b => isLegacyPrefix (getOpcodeAttribute b) = legacyByte b ∧
    isRexPrefix (getOpcodeAttribute b) = rexByte b ∧
    isVexPrefix (getOpcodeAttribute b) = vexByte b) (by decide +kernel) b

theorem isLegacyPrefix_opcode : isLegacyPrefix (getOpcodeAttribute b) = legacyByte b :=
  (prefix_opcode b).1

theorem isRexPrefix_opcode : isRexPrefix (getOpcodeAttribute b) = rexByte b :=
  (prefix_opcode b).2.1

theorem isVexPrefix_opcode : isVexPrefix (getOpcodeAttribute b) = vexByte b :=
  (prefix_opcode b).2.2

theorem modrmMod_eq_three : modrmMod b = 3 ↔ 0xc0 ≤ b :=
  forall_byte (P := fun b => modrmMod b = 3 ↔ 0xc0 ≤ b) (by decide +kernel) b

end

theorem vexSecond_iff (x86_64 : Bool) (b2 : UInt8) :
    (¬ x86_64 ∧ modrmMod b2 ≠ 3) ↔ vexSecond x86_64 b2 = false := by
  simp [vexSecond, modrmMod_eq_three]

variable {buf : Memory}

theorem LegacyRun.mono {q q' : ℕ} (h : LegacyRun buf q) (hle : q' ≤ q) : LegacyRun buf q' := by
  refine ⟨fun i hi => h.1 i (hi.trans_le hle), (Finset.card_le_card ?_).trans h.2⟩
  exact Finset.image_mono buf (Finset.range_mono hle)

theorem LegacyEnd.eq {q q' : ℕ} (h : LegacyEnd buf q) (h' : LegacyEnd buf q') : q = q' := by
  rcases Nat.lt_trichotomy q q' with hlt | heq | hlt
  · exact absurd (h'.1.mono hlt) h.2
  · exact heq
  · exact absurd (h.1.mono hlt) h'.2

theorem FrontEnd.eq {x86_64 : Bool} {p p' : ℕ} (h : FrontEnd buf x86_64 p)
    (h' : FrontEnd buf x86_64 p') : p = p' := by
  obtain ⟨q, hq, rfl⟩ := h
  obtain ⟨q', hq', rfl⟩ := h'
  rw [hq.eq hq']

section Eval

variable {buf : Memory} {e : ℕ} {s : Insn}

theorem eval_peekNbyteNext {n : ℕ} (h : s.nextByte + n < e) :
    (peekNbyteNext buf e n).eval s = (some (buf (s.nextByte + n)), s) := by
  rw [peekNbyteNext, eval_get_bind, if_pos (by omega), eval_pure]

theorem eval_peekNbyteNext_of_end {n : ℕ} (h : e ≤ s.nextByte + n) :
    (peekNbyteNext buf e n).eval s = (none, s) := by
  rw [peekNbyteNext, eval_get_bind, if_neg (by omega), eval_failure]

structure Stored (buf : Memory) (nb : ℕ) (s : Insn) : Prop where
  run : LegacyRun buf s.nextByte
  mem : ∀ b, b ∈ s.prefixes.value.toList.take nb ↔ b ∈ (Finset.range s.nextByte).image buf
  card : ((Finset.range s.nextByte).image buf).card = nb

theorem image_range_succ (buf : Memory) (k : ℕ) :
    (Finset.range (k + 1)).image buf = insert (buf k) ((Finset.range k).image buf) := by
  rw [Finset.range_add_one, Finset.image_insert]

theorem Stored.lt {nb : ℕ} (hs : Stored buf nb s) (hne : nb ≠ 4) : nb < 4 := by
  have := hs.run.2
  have := hs.card
  omega

theorem Stored.again {nb : ℕ} (hs : Stored buf nb s) (hb : legacyByte (buf s.nextByte))
    (hmem : buf s.nextByte ∈ s.prefixes.value.toList.take nb) : Stored buf nb s.skipPrefix := by
  have himage : (Finset.range (s.nextByte + 1)).image buf =
      (Finset.range s.nextByte).image buf := by
    rw [image_range_succ, Finset.insert_eq_of_mem ((hs.mem _).mp hmem)]
  refine ⟨⟨?_, ?_⟩, ?_, ?_⟩
  · exact Nat.forall_lt_succ_right.mpr ⟨hs.run.1, hb⟩
  · exact himage ▸ hs.run.2
  · exact fun b => (hs.mem b).trans (himage ▸ Iff.rfl)
  · exact himage ▸ hs.card

theorem Stored.add {nb : ℕ} (hs : Stored buf nb s) (hb : legacyByte (buf s.nextByte))
    (hmem : buf s.nextByte ∉ s.prefixes.value.toList.take nb) (hne : nb ≠ 4) (attr : Attr) :
    Stored buf (nb + 1) (s.addPrefix nb (buf s.nextByte) attr).skipPrefix := by
  have hlt := hs.lt hne
  have hcard : ((Finset.range (s.nextByte + 1)).image buf).card = nb + 1 := by
    rw [image_range_succ, Finset.card_insert_of_notMem fun h => hmem ((hs.mem _).mpr h), hs.card]
  refine ⟨⟨?_, ?_⟩, ?_, hcard⟩
  · exact Nat.forall_lt_succ_right.mpr ⟨hs.run.1, hb⟩
  · exact hcard.le.trans hlt
  · intro b
    have htake : (s.prefixes.value.setIfInBounds nb (buf s.nextByte)).toList.take (nb + 1) =
        s.prefixes.value.toList.take nb ++ [buf s.nextByte] := by
      have hlen : nb < s.prefixes.value.toList.length := by simpa using hlt
      rw [Vector.toList_setIfInBounds, List.take_add_one, List.take_set_of_le le_rfl,
        List.getElem?_set_self hlen, Option.toList_some]
    have hrange : (s.addPrefix nb (buf s.nextByte) attr).skipPrefix.nextByte = s.nextByte + 1 := rfl
    have hvalue : (s.addPrefix nb (buf s.nextByte) attr).skipPrefix.prefixes.value =
        s.prefixes.value.setIfInBounds nb (buf s.nextByte) := rfl
    rw [hvalue, htake, hrange, image_range_succ, List.mem_append, List.mem_singleton,
      Finset.mem_insert, hs.mem, or_comm]

theorem Stored.full (hs : Stored buf 4 s) (hmem : buf s.nextByte ∉ s.prefixes.value.toList.take 4) :
    LegacyEnd buf s.nextByte := by
  refine ⟨hs.run, fun h => ?_⟩
  have hcard := h.2
  rw [image_range_succ, Finset.card_insert_of_notMem fun h => hmem ((hs.mem _).mpr h),
    hs.card] at hcard
  omega

theorem legacyPrefixes_cases {left nb : ℕ} (lb : UInt8) (hs : Stored buf nb s)
    (hleft : s.nextByte + left = e) :
    (∃ t, (legacyPrefixes buf e left nb lb).eval s = (none, t) ∧ LegacyRun buf e) ∨
      ∃ r t, (legacyPrefixes buf e left nb lb).eval s = (some r, t) ∧ t.nextByte < e ∧
        LegacyEnd buf t.nextByte := by
  induction left generalizing nb lb s with
  | zero =>
    have hend : s.nextByte = e := hleft
    exact .inl ⟨s, rfl, hend ▸ hs.run⟩
  | succ left ih =>
    have hlt : s.nextByte < e := by omega
    rw [legacyPrefixes, peekNext, eval_bind_some (eval_peekNbyteNext hlt), Nat.add_zero]
    dsimp only
    rw [isLegacyPrefix_opcode]
    by_cases hb : legacyByte (buf s.nextByte)
    · rw [if_pos hb, eval_get_bind]
      by_cases hmem : buf s.nextByte ∈ s.prefixes.value.toList.take nb
      · rw [if_pos hmem, eval_modify_bind]
        exact ih _ (hs.again hb hmem) (by simp only [Insn.skipPrefix]; omega)
      · rw [if_neg hmem]
        by_cases hnb : nb = 4
        · subst hnb
          rw [if_pos rfl, eval_pure]
          exact .inr ⟨_, s, rfl, hlt, hs.full hmem⟩
        · rw [if_neg hnb, eval_modify_bind, eval_modify_bind]
          exact ih _ (hs.add hb hmem hnb _) (by simp only [Insn.skipPrefix, Insn.addPrefix]; omega)
    · rw [if_neg hb, eval_pure]
      exact .inr ⟨_, s, rfl, hlt, hs.run, fun h => hb (h.1 _ (Nat.lt_succ_self _))⟩

theorem eval_rexPrefix (h : s.nextByte < e) :
    (rexPrefix buf e).eval s = (some (), if s.x86_64 && rexByte (buf s.nextByte) then
      s.setRexPrefix (buf s.nextByte) else s) := by
  rw [rexPrefix, eval_get_bind]
  cases hmode : s.x86_64
  · rfl
  · rw [if_pos rfl, peekNext, eval_bind_some (eval_peekNbyteNext h), Nat.add_zero,
      isRexPrefix_opcode, Bool.true_and]
    split <;> rfl

section

variable (buf : Memory)

/-- The end of `insn_get_prefixes`. -/
def vexStage (e : ℕ) : Stage Insn Unit := do
  vexPrefix buf e
  modify fun insn => { insn with vexPrefix.got := true, prefixes.got := true }

/-- The state behind a REX prefix. -/
def Insn.afterRex (s : Insn) : Insn :=
  { (if s.x86_64 && rexByte (buf s.nextByte) then s.setRexPrefix (buf s.nextByte) else s) with
    rexPrefix.got := true }

theorem afterRex_nextByte (s : Insn) : (s.afterRex buf).nextByte =
    if s.x86_64 && rexByte (buf s.nextByte) then s.nextByte + 1 else s.nextByte := by
  rw [Insn.afterRex]
  split <;> rfl

theorem afterRex_vexPrefix (s : Insn) : (s.afterRex buf).vexPrefix = s.vexPrefix := by
  rw [Insn.afterRex]
  split <;> rfl

end

theorem eval_prefixesBody_none {t : Insn}
    (h : (legacyPrefixes buf e (e - s.nextByte) 0 0).eval s = (none, t)) :
    (prefixesBody buf e).eval s = (none, t) := by
  rw [prefixesBody, eval_get_bind]
  exact eval_bind_none h

theorem eval_prefixesBody {r : ℕ × UInt8} {t : Insn}
    (h : (legacyPrefixes buf e (e - s.nextByte) 0 0).eval s = (some r, t)) (hlt : t.nextByte < e) :
    (prefixesBody buf e).eval s =
      (vexStage buf e).eval ((t.setLastPrefix r.1 r.2).afterRex buf) := by
  have hbody : (prefixesBody buf e).eval s =
      Stage.eval (do
        let last ← legacyPrefixes buf e (e - s.nextByte) 0 0
        modify (Insn.setLastPrefix last.1 last.2)
        rexPrefix buf e
        modify fun insn => { insn with rexPrefix.got := true }
        vexStage buf e) s := rfl
  have hnext : (t.setLastPrefix r.1 r.2).nextByte < e := by
    rw [setLastPrefix_nextByte]
    exact hlt
  rw [hbody, eval_bind_some h, eval_modify_bind, eval_bind_some (eval_rexPrefix hnext),
    eval_modify_bind]
  rfl

theorem eval_vexPrefix_of_end (h : e ≤ s.nextByte) : (vexPrefix buf e).eval s = (none, s) :=
  eval_bind_none (eval_peekNbyteNext_of_end h)

theorem eval_vexPrefix_other (h : s.nextByte < e) (hb : vexByte (buf s.nextByte) = false) :
    (vexPrefix buf e).eval s = (some (), s) := by
  rw [vexPrefix, peekNext, eval_bind_some (eval_peekNbyteNext h), Nat.add_zero]
  dsimp only
  rw [isVexPrefix_opcode, hb]
  rfl

theorem eval_vexPrefix_first (h : s.nextByte + 1 = e) (hb : vexByte (buf s.nextByte)) :
    (vexPrefix buf e).eval s = (none, s) := by
  rw [vexPrefix, peekNext, eval_bind_some (eval_peekNbyteNext (by omega)), Nat.add_zero]
  dsimp only
  rw [isVexPrefix_opcode, if_pos hb]
  exact eval_bind_none (eval_peekNbyteNext_of_end h.ge)

theorem eval_vexPrefix (h : s.nextByte + 1 < e) (hb : vexByte (buf s.nextByte)) :
    (vexPrefix buf e).eval s =
      if vexSecond s.x86_64 (buf (s.nextByte + 1)) then
        (vexPrefixBytes buf e (getOpcodeAttribute (buf s.nextByte)) (buf s.nextByte)
          (buf (s.nextByte + 1))).eval s
      else (some (), s) := by
  rw [vexPrefix, peekNext, eval_bind_some (eval_peekNbyteNext (by omega)), Nat.add_zero]
  dsimp only
  rw [isVexPrefix_opcode, if_pos hb, eval_bind_some (eval_peekNbyteNext h), eval_get_bind]
  cases hsecond : vexSecond s.x86_64 (buf (s.nextByte + 1))
  · rw [if_pos ((vexSecond_iff _ _).mpr hsecond)]
    rfl
  · rw [if_neg fun h => absurd ((vexSecond_iff _ _).mp h) (by rw [hsecond]; decide)]
    rfl

def Insn.setVexBytes (i j : Fin 4) (b b2 : UInt8) (s : Insn) : Insn :=
  (s.setVexByte i b).setVexByte j b2

theorem eval_vexPrefixBytes_vex2 (b2 : UInt8) :
    (vexPrefixBytes buf e (getOpcodeAttribute 0xc5) 0xc5 b2).eval s =
      (some (), ((s.setVexBytes 0 1 0xc5 b2).setVexByte 2 (b2 &&& 0x7f)).setVexLength 2 false) :=
  rfl

theorem eval_vexPrefixBytes_vex3 (b2 : UInt8) :
    (vexPrefixBytes buf e (getOpcodeAttribute 0xc4) 0xc4 b2).eval s =
      if s.nextByte + 2 < e then
        (some (), ((s.setVexBytes 0 1 0xc4 b2).setVexByte 2 (buf (s.nextByte + 2))).setVexLength 3
          (vexW (buf (s.nextByte + 2))))
      else (none, s.setVexBytes 0 1 0xc4 b2) := by
  have heval : (vexPrefixBytes buf e (getOpcodeAttribute 0xc4) 0xc4 b2).eval s =
      Stage.eval (do
        let b2 ← peekNbyteNext buf e 2
        modify (Insn.setVexByte 2 b2)
        modify (Insn.setVexLength 3 (vexW b2))) (s.setVexBytes 0 1 0xc4 b2) := rfl
  rw [heval]
  split
  case isTrue h => exact eval_bind_some (eval_peekNbyteNext (s := s.setVexBytes 0 1 _ _) h)
  case isFalse h => exact eval_bind_none (eval_peekNbyteNext_of_end (not_lt.mp h))

theorem eval_vexPrefixBytes_evex (b2 : UInt8) :
    (vexPrefixBytes buf e (getOpcodeAttribute 0x62) 0x62 b2).eval s =
      if s.nextByte + 3 < e then
        (some (), (((s.setVexBytes 0 1 0x62 b2).setVexByte 2 (buf (s.nextByte + 2))).setVexByte 3
          (buf (s.nextByte + 3))).setVexLength 4 (vexW (buf (s.nextByte + 3))))
      else if s.nextByte + 2 < e then
        (none, (s.setVexBytes 0 1 0x62 b2).setVexByte 2 (buf (s.nextByte + 2)))
      else (none, s.setVexBytes 0 1 0x62 b2) := by
  have heval : (vexPrefixBytes buf e (getOpcodeAttribute 0x62) 0x62 b2).eval s =
      Stage.eval (do
        let b2 ← peekNbyteNext buf e 2
        modify (Insn.setVexByte 2 b2)
        let b2 ← peekNbyteNext buf e 3
        modify (Insn.setVexByte 3 b2)
        modify (Insn.setVexLength 4 (vexW b2))) (s.setVexBytes 0 1 0x62 b2) := rfl
  rw [heval]
  by_cases h2 : s.nextByte + 2 < e
  · rw [eval_bind_some (eval_peekNbyteNext (s := s.setVexBytes 0 1 _ _) h2), eval_modify_bind]
    set t := Insn.setVexByte 2 (buf (s.nextByte + 2)) (s.setVexBytes 0 1 0x62 b2)
    rw [if_pos h2]
    split
    case isTrue h3 => exact eval_bind_some (eval_peekNbyteNext (s := t) h3)
    case isFalse h3 =>
      exact eval_bind_none (eval_peekNbyteNext_of_end (s := t) (not_lt.mp h3))
  · rw [if_neg (by omega), if_neg h2]
    exact eval_bind_none (eval_peekNbyteNext_of_end (not_lt.mp h2))

end Eval

section Whole

variable {buf : Memory} {e p : ℕ} {x86_64 : Bool}

structure Clear (x86_64 : Bool) (s : Insn) : Prop where
  vex : s.vexPrefix.value = .replicate 4 0 ∧ s.vexPrefix.nbytes = 0
  got : s.prefixes.got = false
  rest : s.rest = (Insn.init x86_64).rest

variable {s : Insn}

theorem Clear.noVex (h : Clear x86_64 s) : s.NoVex := h.vex.1

theorem Clear.mode (h : Clear x86_64 s) : s.x86_64 = x86_64 :=
  congrArg Rest.x86_64 h.rest

theorem Clear.exec_legacy (buf : Memory) (e left nb : ℕ) (lb : UInt8) (h : Clear x86_64 s) :
    Clear x86_64 ((legacyPrefixes buf e left nb lb).exec s) := by
  have hvex : ((legacyPrefixes buf e left nb lb).exec s).vexPrefix = s.vexPrefix :=
    keeps_legacyPrefixes buf e (fun _ _ _ _ => rfl) (fun _ => rfl) left nb lb s
  have hgot : ((legacyPrefixes buf e left nb lb).exec s).prefixes.got = s.prefixes.got :=
    keeps_legacyPrefixes (f := fun s => s.prefixes.got) buf e (fun _ _ _ _ => rfl) (fun _ => rfl)
      left nb lb s
  have hrest := keeps_legacyPrefixes buf e addPrefix_rest (fun _ => rfl) left nb lb s
  exact ⟨hvex ▸ h.vex, hgot.trans h.got, hrest.trans h.rest⟩

theorem Clear.setLastPrefix {nb : ℕ} {lb : UInt8} (h : Clear x86_64 s) :
    Clear x86_64 (s.setLastPrefix nb lb) := by
  rw [Insn.setLastPrefix]
  split
  · exact ⟨h.vex, h.got, h.rest⟩
  · exact h

theorem Clear.afterRex (h : Clear x86_64 s) : Clear x86_64 (s.afterRex buf) := by
  rw [Insn.afterRex]
  split <;> exact ⟨h.vex, h.got, h.rest⟩

theorem prefixesBody_cases (buf : Memory) (e : ℕ) (x86_64 : Bool) :
    (∃ t, Clear x86_64 t ∧ (prefixesBody buf e).eval (.init x86_64) = (none, t) ∧
        LegacyRun buf e) ∨
      ∃ t, Clear x86_64 t ∧ FrontEnd buf x86_64 t.nextByte ∧
        (prefixesBody buf e).eval (.init x86_64) = (vexStage buf e).eval t := by
  have hstored : Stored buf 0 (.init x86_64) :=
    ⟨⟨fun i hi => absurd hi (Nat.not_lt_zero i), Nat.zero_le 4⟩, fun b => by simp [Insn.init], rfl⟩
  have hinit : Clear x86_64 (.init x86_64) := ⟨⟨rfl, rfl⟩, rfl, rfl⟩
  have hclear := hinit.exec_legacy buf e e 0 0
  rcases legacyPrefixes_cases 0 hstored (Nat.zero_add e) with
    ⟨t, heval, hrun⟩ | ⟨r, t, heval, hlt, hlegacy⟩
  · rw [exec_of_eval heval] at hclear
    exact .inl ⟨t, hclear, eval_prefixesBody_none heval, hrun⟩
  · rw [exec_of_eval heval] at hclear
    have hlast : Clear x86_64 (t.setLastPrefix r.1 r.2) := hclear.setLastPrefix
    refine .inr ⟨_, hlast.afterRex, ⟨t.nextByte, hlegacy, ?_⟩, eval_prefixesBody heval hlt⟩
    rw [afterRex_nextByte, setLastPrefix_nextByte, hlast.mode]

theorem LongVexAt.vexByte (h : LongVexAt buf x86_64 p) : vexByte (buf p) := by
  rcases h.first with hb | hb <;> rw [hb] <;> rfl

theorem LongVexAt.before (h : LongVexAt buf x86_64 p) (he : e ≤ p + 1) :
    (insnGetPrefixes buf e (.init x86_64)).prefixes.got = false := by
  rcases prefixesBody_cases buf e x86_64 with ⟨t, ht, heval, -⟩ | ⟨t, hclear, hfront, heval⟩
  · have hexec : insnGetPrefixes buf e (.init x86_64) = t := exec_of_eval heval
    rw [hexec]
    exact ht.got
  · obtain rfl := hfront.eq h.front
    suffices hstop : (vexPrefix buf e).eval t = (none, t) by
      have hexec : insnGetPrefixes buf e (.init x86_64) = t :=
        exec_of_eval (heval.trans (eval_bind_none hstop))
      rw [hexec]
      exact hclear.got
    rcases Nat.lt_or_eq_of_le he with hlt | heq
    · exact eval_vexPrefix_of_end (Nat.le_of_lt_succ hlt)
    · exact eval_vexPrefix_first heq.symm h.vexByte

theorem LongVexAt.eval_behind (h : LongVexAt buf x86_64 p) (he : p + 1 < e) :
    ∃ t, Clear x86_64 t ∧ t.nextByte = p ∧
      (vexPrefix buf e).eval t =
        (vexPrefixBytes buf e (getOpcodeAttribute (buf p)) (buf p) (buf (p + 1))).eval t ∧
      (prefixesBody buf e).eval (.init x86_64) = (vexStage buf e).eval t := by
  rcases prefixesBody_cases buf e x86_64 with ⟨t, -, -, hrun⟩ | ⟨t, hclear, hfront, heval⟩
  · obtain ⟨q, hq, hp⟩ := h.front
    have hqe : q + 1 ≤ e := by split at hp <;> omega
    exact absurd (hrun.mono hqe) hq.2
  · obtain rfl := hfront.eq h.front
    refine ⟨t, hclear, rfl, ?_, heval⟩
    rw [eval_vexPrefix he h.vexByte, hclear.mode, if_pos h.second]

theorem LongVexAt.behind (h : LongVexAt buf x86_64 p) (he : p + 2 ≤ e)
    (hends : ¬ EndsInVex buf e p) : p + 3 ≤ (insnGetPrefixes buf e (.init x86_64)).nextByte := by
  obtain ⟨t, -, rfl, hvex, heval⟩ := h.eval_behind he
  have hsome {u : Insn} (hu : (vexPrefix buf e).eval t = (some (), u)) :
      (insnGetPrefixes buf e (.init x86_64)).nextByte = u.nextByte := by
    have hexec : insnGetPrefixes buf e (.init x86_64) =
        { u with vexPrefix.got := true, prefixes.got := true } :=
      exec_of_eval (heval.trans (eval_bind_some hu))
    rw [hexec]
  rcases h.first with hb | hb <;> rw [hb] at hvex
  · have hthird : t.nextByte + 2 < e := by
      by_contra hle
      exact hends ⟨he, .inl ⟨hb, by omega⟩⟩
    rw [eval_vexPrefixBytes_vex3, if_pos hthird] at hvex
    exact (hsome hvex).ge
  · have hfourth : t.nextByte + 3 < e := by
      by_contra hle
      exact hends ⟨he, .inr ⟨hb, by omega⟩⟩
    rw [eval_vexPrefixBytes_evex, if_pos hfourth] at hvex
    exact Nat.le_of_succ_le (hsome hvex).ge

theorem vexPrefix_stop {t : Insn} (ht : Clear x86_64 t) (h : (vexPrefix buf e).eval t = (none, s)) :
    s = t ∨ (buf t.nextByte = 0xc4 ∨ buf t.nextByte = 0x62) ∧
      vexSecond x86_64 (buf (t.nextByte + 1)) ∧ EndsInVex buf e t.nextByte := by
  rcases Nat.lt_or_ge t.nextByte e with hlt | hge
  · cases hb : vexByte (buf t.nextByte) with
    | false =>
      rw [eval_vexPrefix_other hlt hb] at h
      cases h
    | true =>
      rcases Nat.eq_or_lt_of_le (Nat.succ_le_of_lt hlt) with heq | hlt
      · rw [eval_vexPrefix_first heq hb] at h
        exact .inl (Prod.mk.inj h).2.symm
      · rw [eval_vexPrefix hlt hb, ht.mode] at h
        split at h
        case isFalse => cases h
        case isTrue hsecond =>
          rw [vexByte, decide_eq_true_iff] at hb
          rcases hb with hb | hb | hb <;> rw [hb] at h
          · rw [eval_vexPrefixBytes_vex3] at h
            split at h
            · cases h
            · exact .inr ⟨.inl hb, hsecond, by omega, .inl ⟨hb, by omega⟩⟩
          · cases h
          · rw [eval_vexPrefixBytes_evex] at h
            split at h
            · cases h
            · exact .inr ⟨.inr hb, hsecond, by omega, .inr ⟨hb, by omega⟩⟩
  · rw [eval_vexPrefix_of_end hge] at h
    exact .inl (Prod.mk.inj h).2.symm

theorem prefixes_stop (h : (prefixesBody buf e).eval (.init x86_64) = (none, s)) :
    s.hasVex = false ∨ ∃ p, LongVexAt buf x86_64 p ∧ EndsInVex buf e p := by
  rcases prefixesBody_cases buf e x86_64 with ⟨t, ht, heval, -⟩ | ⟨t, hclear, hfront, heval⟩
  · rw [heval, Prod.mk.injEq] at h
    exact .inl (h.2 ▸ ht.noVex.hasVex)
  · rw [heval] at h
    rcases hv : (vexPrefix buf e).eval t with ⟨_ | _, u⟩
    · rw [vexStage, eval_bind_none hv, Prod.mk.injEq] at h
      obtain ⟨-, rfl⟩ := h
      rcases vexPrefix_stop hclear hv with rfl | ⟨hfirst, hsecond, hends⟩
      · exact .inl hclear.noVex.hasVex
      · exact .inr ⟨t.nextByte, ⟨hfront, hfirst, hsecond⟩, hends⟩
    · rw [vexStage, eval_bind_some hv] at h
      cases h

end Whole

end RPerf.X86
