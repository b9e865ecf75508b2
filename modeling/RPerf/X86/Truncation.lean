import RPerf.X86.VexCut

/-!
# Instructions that are cut off

What the decoder finds in a buffer it also finds in a longer one, and it finds nothing if
the buffer ends inside of the instruction.
-/

namespace RPerf.X86

open Lib Inat

section Whole

variable {buf : Memory} {lo e e' : ℕ} {x86_64 : Bool}

open Stage

variable {s : Insn}

theorem insnIsAvx_of_end (h : e ≤ s.nextByte) : (insnIsAvx buf e).eval s = (some s.hasVex, s) := by
  rw [insnIsAvx, eval_modify_bind, insnGetPrefixes_of_end h, eval_get_bind, eval_pure]

theorem legacyAttribute_of_vex {op : UInt8} (h : e ≤ s.nextByte)
    (hop : isVexPrefix (getOpcodeAttribute op)) :
    (legacyAttribute buf e op).eval s = (some (), s.setAttr (getOpcodeAttribute op)) := by
  obtain ⟨-, hesc, hmust⟩ := vex_opcode op hop
  have hescapes : (getEscapes buf e 0).eval (s.setAttr (getOpcodeAttribute op)) =
      (some (), s.setAttr (getOpcodeAttribute op)) := by
    rw [getEscapes, eval_get_bind]
    exact congrArg (Stage.eval · _) (if_neg hesc)
  rw [legacyAttribute, eval_modify_bind, eval_get_bind]
  have hleft : e - (s.setAttr (getOpcodeAttribute op)).nextByte = 0 := Nat.sub_eq_zero_of_le h
  rw [hleft, eval_bind_some hescapes, eval_get_bind]
  exact congrArg (Stage.eval · _) (if_neg hmust)

theorem incomplete_of_stuck (hs : Stuck buf e s) (hvex : s.hasVex = false)
    (hopc : s.opcode.got = false) (hmod : s.modrm.got = false) :
    (Stage.exec (do opcodeBody buf e; modify markOpcode) s).opcode.got = false ∨
      (Stage.exec (do modrmBody buf e; modify markModrm)
        (Stage.exec (do opcodeBody buf e; modify markOpcode) s)).modrm.got = false := by
  cases hs with
  | atEnd _ hle =>
    left
    have hbody : (do opcodeBody buf e; modify markOpcode : Stage Insn PUnit).eval s = (none, s) :=
      eval_bind_none (eval_bind_none (getNextByte_of_end hle))
    rw [exec_of_eval hbody]
    exact hopc
  | atFirst _ heq hbyte =>
    right
    set b := buf s.nextByte
    have hend : e ≤ ((s.skip 1).setOpcode b).nextByte := heq.ge
    set t := ((s.skip 1).setOpcode b).setAttr (getOpcodeAttribute b)
    have hnone : ¬ ((s.skip 1).setOpcode b).hasVex := Bool.eq_false_iff.mp hvex
    have hopcode : (opcodeBody buf e).eval s = (some (), t) := by
      rw [opcodeBody, eval_bind_some (getNextByte_of_lt (by omega)), eval_modify_bind,
        eval_bind_some (insnIsAvx_of_end hend), if_neg hnone]
      exact legacyAttribute_of_vex hend hbyte
    have hmark : (do opcodeBody buf e; modify markOpcode : Stage Insn PUnit).eval s =
        (some ⟨⟩, markOpcode t) := by
      rw [eval_bind_some hopcode, eval_modify]
    have hmodrm : (do modrmBody buf e; modify markModrm : Stage Insn PUnit).eval (markOpcode t) =
        (none, markOpcode t) :=
      eval_bind_none (modrmBody_of_end hend (vex_opcode b hbyte).1)
    rw [exec_of_eval hmark, exec_of_eval hmodrm]
    exact hmod
  | inside hvex' _ =>
    rw [hvex] at hvex'
    cases hvex'

structure Agrees (I : Insn → Prop) (gots : Gots) (s s' : Insn) : Prop where
  eq : s' = s
  inv : I s
  gots_eq : s.gots = gots

theorem Known.of_eq {t : Insn} (h : Known lo e s) (hprefixes : t.prefixes = s.prefixes)
    (hnext : t.nextByte = s.nextByte) (hattr : t.attr = s.attr) : Known lo e t where
  got := hprefixes ▸ h.got
  pos := hnext ▸ h.pos
  le := hnext ▸ h.le
  second := hattr ▸ h.second

theorem Known.fresh (h : Known lo e s) (hgots : s.gots.immediate = false) : Fresh lo e s :=
  ⟨h.toInside, hgots⟩

theorem Agrees.stage {I : Insn → Prop} {v v' : Gots} {s' t t' : Insn} {p q : Stage Insn Unit}
    {m : Insn → Insn} (h : Agrees I v s s')
    (hext : Extends I p q (fun _ => Known lo e) (fun _ => True)) (hkeep : Keeps Insn.gots p)
    (ht : t = Stage.exec (do p; modify m) s) (ht' : t' = Stage.exec (do q; modify m) s')
    (hm : ∀ u, Known lo e u → Known lo e (m u)) (hv : ∀ u, u.gots = v → (m u).gots = v')
    (flag : Gots → Bool) (hclear : flag v = false) (got : Insn → Bool)
    (hgot : ∀ u, flag u.gots = got u) (hset : got t = true) : Agrees (Known lo e) v' t t' := by
  obtain ⟨rfl, hs, hgots⟩ := h
  rw [← hgot] at hset
  subst ht ht'
  rcases hext.keeping hkeep v s' ⟨hs, hgots⟩ with ⟨_, u, hp, hq, hu, hgots⟩ | ⟨u, hp, -, hgots⟩
  · have hp' : (do p; modify m : Stage Insn PUnit).eval s' = (some ⟨⟩, m u) := eval_bind_some hp
    have hq' : (do q; modify m : Stage Insn PUnit).eval s' = (some ⟨⟩, m u) := eval_bind_some hq
    rw [exec_of_eval hp', exec_of_eval hq']
    exact ⟨rfl, hm u hu, hv u hgots⟩
  · have hp' : (do p; modify m : Stage Insn PUnit).eval s' = (none, u) := eval_bind_none hp
    rw [exec_of_eval hp', hgots, hclear] at hset
    cases hset

theorem agrees_prefixes (he : e ≤ e') (hcut : ∀ p, LongVexAt buf x86_64 p → ¬ EndsInVex buf e p)
    (hopc : (insnGetOpcode buf e (.init x86_64)).opcode.got)
    (hmod : (insnGetModrm buf e (.init x86_64)).modrm.got) :
    Agrees (fun s => s.prefixes.got ∧
        (insnGetPrefixes buf e (.init x86_64)).nextByte ≤ s.nextByte ∧ s.nextByte ≤ e) {}
      (insnGetPrefixes buf e (.init x86_64)) (insnGetPrefixes buf e' (.init x86_64)) := by
  have hinit : (Insn.init x86_64).NoVex ∧ (Insn.init x86_64).nextByte ≤ e := ⟨rfl, Nat.zero_le _⟩
  have hgots : (insnGetPrefixes buf e (.init x86_64)).gots = {} :=
    insnGetPrefixes_gots buf e _
  rcases @extends_prefixesBody buf e e' he _ hinit with ⟨_, s, hs, hs', hpre⟩ | ⟨s, hs, hstuck⟩
  · have h1 : insnGetPrefixes buf e (.init x86_64) = s := exec_of_eval hs
    have h1' : insnGetPrefixes buf e' (.init x86_64) = s := exec_of_eval hs'
    rw [h1] at hgots ⊢
    exact ⟨h1', ⟨hpre.1, le_rfl, hpre.2⟩, hgots⟩
  · have h1 : insnGetPrefixes buf e (.init x86_64) = s := exec_of_eval hs
    have hvex : s.hasVex = false :=
      (prefixes_stop hs).resolve_right fun ⟨p, hp, hends⟩ => hcut p hp hends
    rw [h1] at hgots
    have hstop := incomplete_of_stuck hstuck hvex (congrArg Gots.opcode hgots)
      (congrArg Gots.modrm hgots)
    rw [← h1, ← insnGetOpcode_init, ← insnGetModrm_init, hopc, hmod] at hstop
    simp at hstop

theorem insnGetImmediate_extends (he : e ≤ e')
    (hcut : ∀ p, LongVexAt buf x86_64 p → ¬ EndsInVex buf e p)
    (h : (insnGetImmediate buf e (.init x86_64)).complete) :
    insnGetImmediate buf e' (.init x86_64) = insnGetImmediate buf e (.init x86_64) ∧
      Inside (insnGetPrefixes buf e (.init x86_64)).nextByte e
        (insnGetImmediate buf e (.init x86_64)) := by
  set lo := (insnGetPrefixes buf e (.init x86_64)).nextByte
  obtain ⟨hopc, hmod, hsib, hdis, himm⟩ := gots_of_complete h
  have hopcode : Agrees (Known lo e) { opcode := true }
      (insnGetOpcode buf e (.init x86_64)) (insnGetOpcode buf e' (.init x86_64)) :=
    (agrees_prefixes he hcut hopc hmod).stage (extends_opcodeBody he) (keeps_opcodeBody buf e)
      insnGetOpcode_init insnGetOpcode_init (fun _ hu => hu.of_eq rfl rfl rfl)
      (fun _ hu => congrArg (fun g => { g with opcode := true }) hu)
      Gots.opcode rfl (·.opcode.got) (fun _ => rfl) hopc
  have hmodrm : Agrees (Known lo e) { opcode := true, modrm := true }
      (insnGetModrm buf e (.init x86_64)) (insnGetModrm buf e' (.init x86_64)) :=
    hopcode.stage (extends_modrmBody he) (keeps_modrmBody buf e)
      insnGetModrm_init insnGetModrm_init (fun _ hu => hu.of_eq rfl rfl rfl)
      (fun _ hu => congrArg (fun g => { g with modrm := true }) hu)
      Gots.modrm rfl (·.modrm.got) (fun _ => rfl) hmod
  have hsib : Agrees (Known lo e) { opcode := true, modrm := true, sib := true }
      (insnGetSib buf e (.init x86_64)) (insnGetSib buf e' (.init x86_64)) :=
    hmodrm.stage (extends_sibBody he) (keeps_sibBody buf e)
      insnGetSib_init insnGetSib_init (fun _ hu => hu.of_eq rfl rfl rfl)
      (fun _ hu => congrArg (fun g => { g with sib := true }) hu)
      Gots.sib rfl (·.sib.got) (fun _ => rfl) hsib
  have hdisplacement : Agrees (Known lo e)
      { opcode := true, modrm := true, sib := true, displacement := true }
      (insnGetDisplacement buf e (.init x86_64)) (insnGetDisplacement buf e' (.init x86_64)) :=
    hsib.stage (extends_displacementBody he) (keeps_displacementBody buf e)
      insnGetDisplacement_init insnGetDisplacement_init (fun _ hu => hu.of_eq rfl rfl rfl)
      (fun _ hu => congrArg (fun g => { g with displacement := true }) hu)
      Gots.displacement rfl (·.displacement.got) (fun _ => rfl) hdis
  -- the immediate may be marked before its end, so that its flag needs the attribute
  obtain ⟨heq, hknown, hgots⟩ := hdisplacement
  have himmediate := Extends.bind (@extends_immediateBody buf lo e e' he) fun _ =>
    .modify (g := markImmediate) (J := fun _ => Inside lo e) fun _ ht => ⟨ht.got, ht.pos, ht.le⟩
  have hfresh : (insnGetDisplacement buf e (.init x86_64)).gots.immediate = false := by rw [hgots]
  rcases himmediate.exec_eq ⟨hknown.fresh hfresh, hknown.second⟩ with
    ⟨hexec, -, hinside⟩ | hfail
  · rw [← insnGetImmediate_init] at hinside hexec
    rw [← heq, ← insnGetImmediate_init] at hexec
    exact ⟨hexec.symm, hinside⟩
  · rw [← insnGetImmediate_init, himm] at hfail
    cases hfail

end Whole

section Truncation

variable {buf : Memory} {x86_64 : Bool} {n m p : ℕ} {insn : Decode.Insn}

theorem intelPtInsnDecoder_congr {insn : Insn} (h : insn.prefixes.got) (e e' : ℕ) :
    intelPtInsnDecoder buf e insn.setLength = intelPtInsnDecoder buf e' insn.setLength := by
  have hgot : insn.setLength.prefixes.got := h
  rw [intelPtInsnDecoder, intelPtInsnDecoder, insnGetPrefixes_of_got hgot,
    insnGetPrefixes_of_got hgot]

theorem intelPtGetInsn_extends (hnm : n ≤ m) (hm : m < 2 ^ 31)
    (hcut : ∀ p, LongVexAt buf x86_64 p → ¬ EndsInVex buf (min n 15) p)
    (h : intelPtGetInsn buf n x86_64 = some insn) :
    intelPtGetInsn buf m x86_64 = some insn ∧
      (insnGetPrefixes buf (min n 15) (.init x86_64)).nextByte < insn.length ∧
      insn.length ≤ min n 15 := by
  have hn : bufferEnd n = min n 15 := bufferEnd_eq (by omega)
  obtain ⟨hcomplete, hlen, rfl⟩ := intelPtGetInsn_eq_some.mp h
  rw [hn] at hcomplete hlen ⊢
  obtain ⟨heq, hin⟩ := insnGetImmediate_extends (by omega : min n 15 ≤ min m 15) hcut hcomplete
  have hle := hin.le
  have hpos := hin.pos
  refine ⟨intelPtGetInsn_eq_some.mpr ?_, ?_⟩
  · rw [bufferEnd_eq hm, heq]
    exact ⟨hcomplete, by omega, intelPtInsnDecoder_congr hin.got _ _⟩
  · rw [intelPtInsnDecoder_length]
    omega

theorem intelPtGetInsn_of_end (hnm : n ≤ m) (hm : m < 2 ^ 31) (he : min n 15 = min m 15)
    (h : intelPtGetInsn buf n x86_64 = some insn) : intelPtGetInsn buf m x86_64 = some insn := by
  rw [intelPtGetInsn_eq_some, bufferEnd_eq (by omega)] at h
  rw [intelPtGetInsn_eq_some, bufferEnd_eq hm, ← he]
  exact ⟨h.1, h.2.1.trans hnm, h.2.2⟩

theorem LongVexAt.eq {p' : ℕ} (h : LongVexAt buf x86_64 p) (h' : LongVexAt buf x86_64 p') :
    p = p' :=
  h.front.eq h'.front

theorem intelPtGetInsn_before (h : LongVexAt buf x86_64 p) (hn : n < 2 ^ 31)
    (he : min n 15 ≤ p + 1) : intelPtGetInsn buf n x86_64 = none := by
  by_contra hsome
  obtain ⟨insn, hinsn⟩ := Option.ne_none_iff_exists'.mp hsome
  obtain ⟨hcomplete, -, -⟩ := intelPtGetInsn_eq_some.mp hinsn
  rw [bufferEnd_eq hn] at hcomplete
  obtain ⟨hopc, hmod, -⟩ := gots_of_complete hcomplete
  have hcut : ∀ q, LongVexAt buf x86_64 q → ¬ EndsInVex buf (min n 15) q := by
    intro q hq hends
    have := h.eq hq
    have := hends.1
    omega
  have hgot := (agrees_prefixes le_rfl hcut hopc hmod).inv.1
  rw [h.before he] at hgot
  cases hgot

theorem length_behind (h : LongVexAt buf x86_64 p) (hn : n < 2 ^ 31) (he : p + 2 ≤ min n 15)
    (hends : ¬ EndsInVex buf (min n 15) p) (hsome : intelPtGetInsn buf n x86_64 = some insn) :
    p + 3 < insn.length := by
  have hcut : ∀ q, LongVexAt buf x86_64 q → ¬ EndsInVex buf (min n 15) q :=
    fun q hq => h.eq hq ▸ hends
  obtain ⟨-, hlt, -⟩ := intelPtGetInsn_extends le_rfl hn hcut hsome
  have hnext := h.behind he hends
  omega

/-- The third byte is no part of what the stored ones are taken for. -/
def SameLength (x86_64 : Bool) (b2 b3 : UInt8) : Prop :=
  ¬ AsOpcode x86_64 b2 b3 ∧ passedTwo x86_64 b2 b3 = passedOne x86_64 b2

/-- What the stored bytes are taken for ends in front of the third one. -/
def EndsEarly (x86_64 : Bool) (b2 b3 : UInt8) : Prop :=
  (AsOpcode x86_64 b2 b3 → passedTwo x86_64 b2 b3 = 0 ∧ (mapByte x86_64 b2 b3).toNat % 4 = 1 ∧
    lastModrm b2) ∧
  (¬ AsOpcode x86_64 b2 b3 → passedTwo x86_64 b2 b3 ≤ 1)

/-- Buffers cut at `a` and `b` in the VEX prefix at `p` have the same instruction. -/
def KeptInVex (buf : Memory) (x86_64 : Bool) (p a b : ℕ) : Prop :=
  a = p + 2 ∧ b = p + 2 ∨ buf p = 0x62 ∧ b = p + 3 ∧
    (a = p + 2 ∧ SameLength x86_64 (buf (p + 1)) (buf (p + 2)) ∨
      a = p + 3 ∧ EndsEarly x86_64 (buf (p + 1)) (buf (p + 2)))

theorem passedOne_le_passedTwo (x86_64 : Bool) (b2 b3 : UInt8) :
    passedOne x86_64 b2 ≤ passedTwo x86_64 b2 b3 := by
  rw [passedOne, passedTwo]
  cases legacyByte b2 with
  | true =>
    rw [Bool.true_or, if_pos rfl, if_pos rfl]
    split <;> omega
  | false => cases x86_64 && rexByte b2 <;> simp

theorem length_evex (h : LongVexAt buf x86_64 p) (hn : n < 2 ^ 31) (hb : buf p = 0x62)
    (he : min n 15 = p + 3) (hsome : intelPtGetInsn buf n x86_64 = some insn) :
    p + 1 ≤ insn.length ∧
      (insn.length ≤ p + 2 ↔ EndsEarly x86_64 (buf (p + 1)) (buf (p + 2))) ∧
      (insn.length = p + 1 + passedOne x86_64 (buf (p + 1)) ↔
        SameLength x86_64 (buf (p + 1)) (buf (p + 2))) := by
  have hle := passedOne_le_passedTwo x86_64 (buf (p + 1)) (buf (p + 2))
  by_cases hop : AsOpcode x86_64 (buf (p + 1)) (buf (p + 2))
  · obtain ⟨hlt, hshort⟩ := length_cut_three h hn hb he hop hsome
    refine ⟨by omega, hshort.trans ?_, fun heq => by omega, fun hs => absurd hop hs.1⟩
    exact ⟨fun hs => ⟨fun _ => hs, fun hnot => absurd hop hnot⟩, fun hs => hs.1 hop⟩
  · have heq := hsome.symm.trans (intelPtGetInsn_cut_three h hn hb he hop)
    have hlen : insn.length = p + 1 + passedTwo x86_64 (buf (p + 1)) (buf (p + 2)) := by
      rw [Option.some.inj heq, bareInsn]
    refine ⟨by omega, ⟨fun hs => ⟨fun h => absurd h hop, fun _ => by omega⟩, fun hs => ?_⟩,
      ⟨fun hs => ⟨hop, by omega⟩, fun hs => ?_⟩⟩
    · have := hs.2 hop
      omega
    · have := hs.2
      omega

/-- The instruction in `n` bytes is the one in `m` bytes and lies in both. -/
def KeepsInsn (buf : Memory) (x86_64 : Bool) (n m : ℕ) (insn : Decode.Insn) : Prop :=
  (∃ insn', intelPtGetInsn buf m x86_64 = some insn' ∧ insn'.op = insn.op ∧
      insn'.branch = insn.branch ∧ insn'.rel = insn.rel ∧ insn'.length = insn.length) ∧
    1 ≤ insn.length ∧ insn.length ≤ min n 15 ∧
    ∀ k < insn.length, intelPtGetInsn buf k x86_64 = none

theorem keptInVex_of_keepsInsn (hp : LongVexAt buf x86_64 p) (hnm : n ≤ m) (hm : m < 2 ^ 31)
    (h : intelPtGetInsn buf n x86_64 = some insn) (hkeeps : KeepsInsn buf x86_64 n m insn) :
    KeptInVex buf x86_64 p (min n 15) (min m 15) := by
  obtain ⟨⟨insn', hinsn', -, -, -, hlen⟩, -, -, hless⟩ := hkeeps
  have ha : p + 2 ≤ min n 15 := by
    by_contra hlt
    rw [intelPtGetInsn_before hp (by omega) (by omega)] at h
    cases h
  have hshort : insn.length ≤ p + 2 := by
    by_contra hlt
    have htwo := intelPtGetInsn_cut_two hp (n := p + 2) (by omega) (by omega)
    rw [hless (p + 2) (by omega)] at htwo
    cases htwo
  have hends : EndsInVex buf (min n 15) p := by
    by_contra hends
    have := length_behind hp (by omega) ha hends h
    omega
  have hends' : EndsInVex buf (min m 15) p := by
    by_contra hends
    have := length_behind hp hm (by omega) hends hinsn'
    omega
  rcases hends.2 with ⟨hb, hlt⟩ | ⟨hb, hlt⟩ <;> rcases hends'.2 with ⟨hb', hlt'⟩ | ⟨hb', hlt'⟩
  · exact .inl ⟨by omega, by omega⟩
  · exact absurd (hb.symm.trans hb') (by decide)
  · exact absurd (hb.symm.trans hb') (by decide)
  · rcases Nat.lt_or_ge (min m 15) (p + 3) with hm2 | hm3
    · exact .inl ⟨by omega, by omega⟩
    refine .inr ⟨hb, by omega, ?_⟩
    rcases Nat.lt_or_ge (min n 15) (p + 3) with hn2 | hn3
    · have htwo := intelPtGetInsn_cut_two hp (by omega) (by omega : min n 15 = p + 2)
      have hlen2 : insn.length = p + 1 + passedOne x86_64 (buf (p + 1)) := by
        rw [Option.some.inj (h.symm.trans htwo), bareInsn]
      have hsame := (length_evex hp hm hb (by omega) hinsn').2.2
      exact .inl ⟨by omega, hsame.mp (hlen.trans hlen2)⟩
    · have hearly := (length_evex hp (by omega) hb (by omega) h).2.1
      exact .inr ⟨by omega, hearly.mp hshort⟩

theorem keepsInsn_of_short (hp : LongVexAt buf x86_64 p) (hn : n < 2 ^ 31)
    (ha : p + 2 ≤ min n 15) (hpos : p + 1 ≤ insn.length) (hle : insn.length ≤ p + 2)
    (h : intelPtGetInsn buf m x86_64 = some insn) : KeepsInsn buf x86_64 n m insn := by
  refine ⟨⟨insn, h, rfl, rfl, rfl, rfl⟩, by omega, by omega, fun k hk => ?_⟩
  exact intelPtGetInsn_before hp (by omega) (by omega)

theorem keepsInsn_of_keptInVex (hp : LongVexAt buf x86_64 p) (hnm : n ≤ m) (hm : m < 2 ^ 31)
    (h : intelPtGetInsn buf n x86_64 = some insn)
    (hkept : KeptInVex buf x86_64 p (min n 15) (min m 15)) : KeepsInsn buf x86_64 n m insn := by
  have hle := passedOne_le x86_64 (buf (p + 1))
  have htwo (ha : min n 15 = p + 2) :
      insn = bareInsn buf (p + 1 + passedOne x86_64 (buf (p + 1))) :=
    Option.some.inj (h.symm.trans (intelPtGetInsn_cut_two hp (by omega) ha))
  rcases hkept with ⟨ha, hb⟩ | ⟨hfirst, hb, ⟨ha, hsame⟩ | ⟨ha, hearly⟩⟩
  · obtain rfl := htwo ha
    apply keepsInsn_of_short hp (by omega) ha.ge
    · simp [bareInsn]
    · simp only [bareInsn]
      omega
    · exact intelPtGetInsn_cut_two hp hm hb
  · obtain rfl := htwo ha
    apply keepsInsn_of_short hp (by omega) ha.ge
    · simp [bareInsn]
    · simp only [bareInsn]
      omega
    · rw [← hsame.2]
      exact intelPtGetInsn_cut_three hp hm hfirst hb hsame.1
  · obtain ⟨hpos, hshort, -⟩ := length_evex hp (by omega) hfirst ha h
    apply keepsInsn_of_short hp (by omega) (by omega) hpos (hshort.mpr hearly)
    exact intelPtGetInsn_of_end hnm hm (ha.trans hb.symm) h

/-- Instruction decoding does not depend on where the buffer is cut, unless that is in a VEX prefix
of three or four bytes. -/
theorem insn_truncation_iff (buf : Memory) (x86_64 : Bool) {n m : ℕ} {insn : Decode.Insn}
    (hnm : n ≤ m) (hm : m < 2 ^ 31) (h : intelPtGetInsn buf n x86_64 = some insn) :
    KeepsInsn buf x86_64 n m insn ↔
      ∀ p, LongVexAt buf x86_64 p → KeptInVex buf x86_64 p (min n 15) (min m 15) := by
  refine ⟨fun hkeeps p hp => keptInVex_of_keepsInsn hp hnm hm h hkeeps, fun hkept => ?_⟩
  by_cases hvex : ∃ p, LongVexAt buf x86_64 p
  · obtain ⟨p, hp⟩ := hvex
    exact keepsInsn_of_keptInVex hp hnm hm h (hkept p hp)
  · have hcut (len : ℕ) : ∀ p, LongVexAt buf x86_64 p → ¬ EndsInVex buf (min len 15) p :=
      fun p hp => absurd ⟨p, hp⟩ hvex
    obtain ⟨hmore, hpos, hlen⟩ := intelPtGetInsn_extends hnm hm (hcut n) h
    refine ⟨⟨insn, hmore, rfl, rfl, rfl, rfl⟩, by omega, hlen, fun k hk => ?_⟩
    by_contra hsome
    obtain ⟨insn', hinsn'⟩ := Option.ne_none_iff_exists'.mp hsome
    obtain ⟨hsame, -, hlen'⟩ := intelPtGetInsn_extends (by omega : k ≤ n) (by omega) (hcut k) hinsn'
    rw [Option.some.inj (hsame.symm.trans h)] at hlen'
    omega

/-- A VEX prefix at the start is the only one. -/
theorem longVexAt_start (h : legacyByte (buf 0) = false) (hrex : rexByte (buf 0) = false)
    (hp : LongVexAt buf x86_64 p) : p = 0 := by
  have hend : LegacyEnd buf 0 := by
    refine ⟨⟨fun i hi => absurd hi (Nat.not_lt_zero i), Nat.zero_le 4⟩, fun hrun => ?_⟩
    exact absurd (hrun.1 0 Nat.zero_lt_one) (Bool.eq_false_iff.mp h)
  obtain ⟨q, hq, rfl⟩ := hp.front
  rw [← hend.eq hq, hrex, Bool.and_false]
  rfl

/-- The first byte of a call is rejected where the rest of it is missing. -/
theorem insn_truncation_call :
    let buf : Memory := fun i => ([0xe8, 0x10, 0x00, 0x00, 0x00] : List UInt8).getD i 0
    let insn : Decode.Insn :=
      { op := .call, branch := .unconditional, length := 5, rel := 16
        buf := [0xe8, 0x10, 0x00, 0x00, 0x00] }
    intelPtGetInsn buf 5 true = some insn ∧ KeepsInsn buf true 5 64 insn := by
  intro buf insn
  have h : intelPtGetInsn buf 5 true = some insn := by decide +kernel
  refine ⟨h, (insn_truncation_iff buf true (by decide) (by decide) h).mpr fun p hp => ?_⟩
  obtain rfl := longVexAt_start (by decide) (by decide) hp
  exact absurd hp.first (by decide)

/-- `vpshufb xmm0, xmm0, xmm1`. -/
def vpshufb : Memory := fun i => ([0xc4, 0xe2, 0x79, 0x00, 0xc1] : List UInt8).getD i 0

theorem vex_cut_decodes :
    intelPtGetInsn vpshufb 2 true = some { length := 1, buf := [0xc4] } ∧
      intelPtGetInsn vpshufb 5 true =
        some { length := 5, buf := [0xc4, 0xe2, 0x79, 0x00, 0xc1] } := by
  decide +kernel

end Truncation

end RPerf.X86
