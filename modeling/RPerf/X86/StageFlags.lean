import RPerf.X86.Decoder

/-!
# The flags of the stages

`insn_complete` looks at the flags of the stages. No stage sets the flag of another one, so
that an instruction is complete only if every stage has set its own.
-/

namespace RPerf.X86

open Lib Inat Stage

/-- The flags of `insn_complete`. -/
structure Gots where
  opcode : Bool := false
  modrm : Bool := false
  sib : Bool := false
  displacement : Bool := false
  immediate : Bool := false

def Insn.gots (insn : Insn) : Gots where
  opcode := insn.opcode.got
  modrm := insn.modrm.got
  sib := insn.sib.got
  displacement := insn.displacement.got
  immediate := insn.immediate.got

/-- What the prefix stage leaves alone. -/
structure Rest where
  gots : Gots
  modrmBytes : ℕ
  sib : UInt8
  length : ℕ
  x86_64 : Bool
  wide : Bool

def Insn.rest (insn : Insn) : Rest where
  gots := insn.gots
  modrmBytes := insn.modrm.nbytes
  sib := insn.sib.value
  length := insn.length
  x86_64 := insn.x86_64
  wide := insn.x86_64 && (insn.addrBytes == 4 || insn.addrBytes == 8)

theorem xor_twelve_wide (a : UInt8) : (a ^^^ 12 == 4 || a ^^^ 12 == 8) = (a == 4 || a == 8) := by
  have hxor (b : UInt8) : (a ^^^ 12 == b) = (a == b ^^^ 12) := by
    rw [Bool.eq_iff_iff, beq_iff_eq, beq_iff_eq, ← UInt8.xor_left_inj 12, UInt8.xor_assoc,
      UInt8.xor_self, UInt8.xor_zero]
  rw [hxor 4, hxor 8, Bool.or_comm]
  rfl

theorem addPrefix_rest (nb : ℕ) (b : UInt8) (attr : Attr) (s : Insn) :
    (s.addPrefix nb b attr).rest = s.rest := by
  have hwide : (s.addPrefix nb b attr).rest.wide = s.rest.wide := by
    cases hmode : s.x86_64 <;> simp only [Insn.rest, Insn.addPrefix, hmode, Bool.false_and]
    split
    · exact congrArg (true && ·) (xor_twelve_wide s.addrBytes)
    · rfl
  rw [Rest.mk.injEq]
  exact ⟨rfl, rfl, rfl, rfl, rfl, hwide⟩

section Keeps

variable {τ : Type} {f : Insn → τ} (buf : Memory) (e : ℕ)

theorem keeps_peek (n : ℕ) : Keeps f (peekNbyteNext buf e n) :=
  .get_bind fun _ => .ite (.pure _) .failure

theorem keeps_getNext (hf : ∀ n s, f (Insn.skip n s) = f s) (size : ℕ) :
    Keeps f (getNext buf e size) :=
  .get_bind fun _ => .ite (.modify_bind (hf size) (.pure _)) .failure

theorem keeps_getNextByte : Keeps Insn.gots (getNextByte buf e) :=
  .map (keeps_getNext buf e (fun _ _ => rfl) 1)

theorem setLastPrefix_rest (nb : ℕ) (lb : UInt8) (s : Insn) :
    (s.setLastPrefix nb lb).rest = s.rest := by
  rw [Insn.setLastPrefix]
  split <;> rfl

theorem keeps_legacyPrefixes (hadd : ∀ nb b attr s, f (Insn.addPrefix nb b attr s) = f s)
    (hskip : ∀ s : Insn, f s.skipPrefix = f s) (left nb : ℕ) (lb : UInt8) :
    Keeps f (legacyPrefixes buf e left nb lb) := by
  induction left generalizing nb lb with
  | zero => exact .failure
  | succ left ih =>
    refine .bind (keeps_peek buf e 0) fun b => .ite (.get_bind fun s => ?_) (.pure _)
    refine .ite (.modify_bind hskip (ih nb b)) (.ite (.pure _) ?_)
    exact .modify_bind (hadd nb b _) (.modify_bind hskip (ih (nb + 1) b))

theorem keeps_rexPrefix : Keeps Insn.rest (rexPrefix buf e) := by
  refine .get_bind fun _ => .ite (.bind (keeps_peek buf e 0) fun _ => ?_) (.pure _)
  exact .ite (.modify fun _ => rfl) (.pure _)

theorem keeps_vexPrefixBytes (attr : Attr) (b b2 : UInt8) :
    Keeps Insn.rest (vexPrefixBytes buf e attr b b2) := by
  refine .modify_bind (fun _ => rfl) (.modify_bind (fun _ => rfl) (.ite ?_ (.ite ?_ ?_)))
  · refine .bind (keeps_peek buf e 2) fun _ => .modify_bind (fun _ => rfl) ?_
    refine .bind (keeps_peek buf e 3) fun _ => .modify_bind (fun _ => rfl) ?_
    exact .modify fun _ => rfl
  · refine .bind (keeps_peek buf e 2) fun _ => .modify_bind (fun _ => rfl) ?_
    exact .modify fun _ => rfl
  · exact .modify_bind (fun _ => rfl) (.modify fun _ => rfl)

theorem keeps_vexPrefix : Keeps Insn.rest (vexPrefix buf e) := by
  refine .bind (keeps_peek buf e 0) fun b => .ite ?_ (.pure _)
  refine .bind (keeps_peek buf e 1) fun b2 => .get_bind fun _ => ?_
  exact .ite (.pure _) (keeps_vexPrefixBytes buf e _ b b2)

theorem keeps_prefixesBody : Keeps Insn.rest (prefixesBody buf e) := by
  refine .get_bind fun _ =>
    .bind (keeps_legacyPrefixes buf e addPrefix_rest (fun _ => rfl) _ 0 0) fun last => ?_
  refine .modify_bind (setLastPrefix_rest last.1 last.2) ?_
  refine .bind (keeps_rexPrefix buf e) fun _ => .modify_bind (fun _ => rfl) ?_
  exact .bind (keeps_vexPrefix buf e) fun _ => .modify fun _ => rfl

theorem insnGetPrefixes_rest (s : Insn) : (insnGetPrefixes buf e s).rest = s.rest := by
  rw [insnGetPrefixes]
  split
  · rfl
  · exact keeps_prefixesBody buf e s

theorem insnGetPrefixes_gots (s : Insn) : (insnGetPrefixes buf e s).gots = s.gots :=
  congrArg Rest.gots (insnGetPrefixes_rest buf e s)

theorem keeps_insnIsAvx : Keeps Insn.gots (insnIsAvx buf e) :=
  .modify_bind (insnGetPrefixes_gots buf e) (.get_bind fun _ => .pure _)

theorem keeps_insnIsEvex : Keeps Insn.gots (insnIsEvex buf e) :=
  .modify_bind (insnGetPrefixes_gots buf e) (.get_bind fun _ => .pure _)

theorem keeps_insnLastPrefixId : Keeps Insn.gots (insnLastPrefixId buf e) := by
  refine .bind (keeps_insnIsAvx buf e) fun _ => .get_bind fun _ => ?_
  exact .ite (.pure _) (.ite (.pure _) (.pure _))

theorem keeps_getEscapes (left : ℕ) : Keeps Insn.gots (getEscapes buf e left) := by
  induction left with
  | zero => exact .get_bind fun _ => .ite .failure (.pure _)
  | succ left ih =>
    refine .get_bind fun _ => .ite (.bind (keeps_getNextByte buf e) fun op => ?_) (.pure _)
    refine .modify_bind (fun _ => rfl) (.bind (keeps_insnLastPrefixId buf e) fun _ => ?_)
    exact .modify_bind (fun _ => rfl) ih

theorem keeps_avxAttribute (op : UInt8) : Keeps Insn.gots (avxAttribute buf e op) := by
  refine .modify_bind (fun _ => rfl) (.get_bind fun _ => .bind ?_ fun _ => ?_)
  · exact .ite (.map (keeps_insnIsEvex buf e)) (.pure _)
  · exact .ite (.modify fun _ => rfl) (.pure _)

theorem keeps_legacyAttribute (op : UInt8) : Keeps Insn.gots (legacyAttribute buf e op) := by
  refine .modify_bind (fun _ => rfl) (.get_bind fun _ => ?_)
  refine .bind (keeps_getEscapes buf e _) fun _ => .get_bind fun _ => ?_
  exact .ite (.modify fun _ => rfl) (.pure _)

theorem keeps_opcodeBody : Keeps Insn.gots (opcodeBody buf e) := by
  refine .bind (keeps_getNextByte buf e) fun op => .modify_bind (fun _ => rfl) ?_
  refine .bind (keeps_insnIsAvx buf e) fun _ => ?_
  exact .ite (keeps_avxAttribute buf e op) (keeps_legacyAttribute buf e op)

theorem keeps_groupAttribute (mod : UInt8) : Keeps Insn.gots (groupAttribute buf e mod) := by
  refine .get_bind fun _ => .ite (.bind (keeps_insnLastPrefixId buf e) fun _ => ?_) (.pure _)
  refine .modify_bind (fun _ => rfl) (.bind (keeps_insnIsAvx buf e) fun _ => .get_bind fun _ => ?_)
  exact .ite (.modify fun _ => rfl) (.pure _)

theorem keeps_modrmBody : Keeps Insn.gots (modrmBody buf e) := by
  refine .bind (.get_bind fun _ => .ite ?_ (.pure _)) fun _ => .modify fun _ => rfl
  refine .bind (keeps_getNextByte buf e) fun mod => .modify_bind (fun _ => rfl) ?_
  exact keeps_groupAttribute buf e mod

theorem keeps_sibBody : Keeps Insn.gots (sibBody buf e) := by
  refine .get_bind fun _ => .ite ?_ (.pure _)
  exact .bind (keeps_getNextByte buf e) fun _ => .modify fun _ => rfl

theorem keeps_displacementBody : Keeps Insn.gots (displacementBody buf e) := by
  refine .get_bind fun insn => .ite (.pure _) ?_
  exact .bind (.map (keeps_getNext buf e (fun _ _ => rfl) insn.displacementSize)) fun _ =>
    .modify fun _ => rfl

def Insn.earlyGots (insn : Insn) : Gots := { insn.gots with immediate := false }

theorem keeps_getImmediate (size : ℕ) : Keeps Insn.earlyGots (getImmediate buf e size) :=
  .bind (.map (keeps_getNext buf e (fun _ _ => rfl) size)) fun _ => .modify fun _ => rfl

theorem keeps_getImmediate2 (size : ℕ) : Keeps Insn.earlyGots (getImmediate2 buf e size) :=
  .bind (.map (keeps_getNext buf e (fun _ _ => rfl) size)) fun _ => .modify fun _ => rfl

theorem keeps_twoImmediates :
    Keeps Insn.earlyGots (do getImmediate buf e 4; getImmediate2 buf e 4) :=
  .bind (keeps_getImmediate buf e 4) fun _ => keeps_getImmediate2 buf e 4

theorem keeps_getWord (bytes : UInt8) :
    Keeps Insn.earlyGots (do getWord buf e bytes; modify markImmediates) := by
  refine .bind
    (.ite (keeps_getImmediate buf e 2) (.ite (keeps_getImmediate buf e 4) ?_)) fun _ => ?_
  · exact .ite (keeps_twoImmediates buf e) .failure
  · exact .modify fun _ => rfl

theorem keeps_getImmptr : Keeps Insn.earlyGots (getImmptr buf e) := by
  refine .get_bind fun _ => .bind ?_ fun _ => ?_
  · exact .ite (keeps_getImmediate buf e 2) (.ite (keeps_getImmediate buf e 4) .failure)
  · refine .bind (.map (keeps_getNext buf e (fun _ _ => rfl) 2)) fun _ => ?_
    exact .modify_bind (fun _ => rfl) (.modify fun _ => rfl)

theorem keeps_getImmv32 : Keeps Insn.earlyGots (getImmv32 buf e) :=
  .get_bind fun _ => .ite (keeps_getImmediate buf e 2) (.ite (keeps_getImmediate buf e 4) .failure)

theorem keeps_firstImmediate (size : ℕ) : Keeps Insn.earlyGots (firstImmediate buf e size) := by
  refine .ite (keeps_getImmediate buf e 1) (.ite (keeps_getImmediate buf e 2)
    (.ite (keeps_getImmediate buf e 4) (.ite (keeps_twoImmediates buf e) ?_)))
  refine .ite (keeps_getImmptr buf e) (.ite (keeps_getImmv32 buf e) (.ite ?_ .failure))
  exact .get_bind fun insn => keeps_getWord buf e insn.opndBytes

theorem keeps_immediateBody : Keeps Insn.earlyGots (immediateBody buf e) := by
  refine .get_bind fun _ => .ite ?_
    (.ite (.bind (keeps_firstImmediate buf e _) fun _ => ?_) (.pure _))
  · exact .get_bind fun insn => keeps_getWord buf e insn.addrBytes
  · exact .ite (keeps_getImmediate2 buf e 1) (.pure _)

end Keeps

theorem keeps_marked {τ υ : Type} {f : Insn → τ} (g : τ → υ) {p : Stage Insn Unit}
    {m : Insn → Insn} (hp : Keeps f p) (hm : ∀ s, g (f (m s)) = g (f s)) :
    Keeps (fun s => g (f s)) (do p; modify m) :=
  .bind (fun s => congrArg g (hp s)) fun _ => .modify hm

section Complete

variable {buf : Memory} {e : ℕ} {x86_64 : Bool}

theorem insnGetOpcode_init : insnGetOpcode buf e (.init x86_64) =
    Stage.exec (do opcodeBody buf e; modify markOpcode) (insnGetPrefixes buf e (.init x86_64)) :=
  rfl

theorem insnGetModrm_init : insnGetModrm buf e (.init x86_64) =
    Stage.exec (do modrmBody buf e; modify markModrm) (insnGetOpcode buf e (.init x86_64)) :=
  rfl

theorem insnGetSib_init : insnGetSib buf e (.init x86_64) =
    Stage.exec (do sibBody buf e; modify markSib) (insnGetModrm buf e (.init x86_64)) :=
  rfl

theorem insnGetDisplacement_init : insnGetDisplacement buf e (.init x86_64) =
    Stage.exec (do displacementBody buf e; modify markDisplacement)
      (insnGetSib buf e (.init x86_64)) :=
  rfl

theorem insnGetImmediate_init : insnGetImmediate buf e (.init x86_64) =
    Stage.exec (do immediateBody buf e; modify markImmediate)
      (insnGetDisplacement buf e (.init x86_64)) :=
  rfl

theorem gots_of_complete (h : (insnGetImmediate buf e (.init x86_64)).complete) :
    (insnGetOpcode buf e (.init x86_64)).opcode.got ∧
      (insnGetModrm buf e (.init x86_64)).modrm.got ∧
      (insnGetSib buf e (.init x86_64)).sib.got ∧
      (insnGetDisplacement buf e (.init x86_64)).displacement.got ∧
      (insnGetImmediate buf e (.init x86_64)).immediate.got := by
  have hmodrm := keeps_marked Gots.opcode (m := markModrm) (keeps_modrmBody buf e)
    (fun _ => rfl) (insnGetOpcode buf e (.init x86_64))
  have hsib := keeps_marked (fun g => (g.opcode, g.modrm)) (m := markSib) (keeps_sibBody buf e)
    (fun _ => rfl) (insnGetModrm buf e (.init x86_64))
  have hdisp := keeps_marked (fun g => (g.opcode, g.modrm, g.sib)) (m := markDisplacement)
    (keeps_displacementBody buf e) (fun _ => rfl) (insnGetSib buf e (.init x86_64))
  have himm := keeps_marked id (m := markImmediate) (keeps_immediateBody buf e)
    (fun _ => rfl) (insnGetDisplacement buf e (.init x86_64))
  rw [← insnGetModrm_init] at hmodrm
  rw [← insnGetSib_init] at hsib
  rw [← insnGetDisplacement_init] at hdisp
  rw [← insnGetImmediate_init] at himm
  simp only [Insn.earlyGots, Insn.gots, id, Gots.mk.injEq, Prod.mk.injEq] at hmodrm hsib hdisp himm
  simp only [Insn.complete, Bool.and_eq_true] at h
  grind

end Complete

end RPerf.X86
