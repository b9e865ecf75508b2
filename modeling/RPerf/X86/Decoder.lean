import RPerf.Lib.Stages
import RPerf.Decode.State
import RPerf.X86.Inat

/-!
# The instruction decoder

`insn.c` reads an instruction in stages: its prefixes, opcode, ModRM, SIB, displacement and
immediate.
-/

namespace RPerf.X86

open Lib Inat

structure Field (α : Type) where
  value : α
  got : Bool := false
  nbytes : ℕ := 0

abbrev Bytes := Vector UInt8 4

/-- `struct insn`. -/
structure Insn where
  prefixes : Field Bytes := { value := .replicate 4 0 }
  rexPrefix : Field UInt8 := { value := 0 }
  vexPrefix : Field Bytes := { value := .replicate 4 0 }
  opcode : Field Bytes := { value := .replicate 4 0 }
  modrm : Field UInt8 := { value := 0 }
  sib : Field UInt8 := { value := 0 }
  displacement : Field Int32 := { value := 0 }
  immediate : Field Int32 := { value := 0 }
  immediate2 : Field Int32 := { value := 0 }
  attr : Attr := 0
  opndBytes : UInt8 := 4
  addrBytes : UInt8
  length : ℕ := 0
  x86_64 : Bool
  nextByte : ℕ := 0

/-- `X86_MODRM_MOD`. -/
def modrmMod (modrm : UInt8) : UInt8 := (modrm &&& 0xc0) >>> 6

def modrmRm (modrm : UInt8) : UInt8 := modrm &&& 0x07

/-- `X86_REX_W`. -/
def rexW (rex : UInt8) : Bool := rex &&& 8 ≠ 0

/-- `X86_VEX_W`. -/
def vexW (vex : UInt8) : Bool := vex &&& 0x80 ≠ 0

/-- `MAX_INSN_SIZE`. -/
def maxInsnSize : ℕ := 15

namespace Insn

variable (insn : Insn)

/-- The test of `insn_is_avx`: `vex_prefix.value != 0`. -/
def hasVex : Bool := insn.vexPrefix.value ≠ .replicate 4 0

/-- `insn_init` without the buffer. -/
def init (x86_64 : Bool) : Insn := { addrBytes := if x86_64 then 8 else 4, x86_64 }

/-- `insn_complete`. -/
def complete : Bool :=
  insn.opcode.got && insn.modrm.got && insn.sib.got && insn.displacement.got && insn.immediate.got

def vexMBits : ℕ :=
  if insn.vexPrefix.nbytes = 2 then 1
  else if insn.vexPrefix.nbytes = 3 then (insn.vexPrefix.value[1] &&& 0x1f).toNat
  else (insn.vexPrefix.value[1] &&& 0x03).toNat

def vexPBits : ℕ :=
  if insn.vexPrefix.nbytes = 2 then (insn.vexPrefix.value[1] &&& 0x03).toNat
  else (insn.vexPrefix.value[2] &&& 0x03).toNat

def skip (n : ℕ) (insn : Insn) : Insn := { insn with nextByte := insn.nextByte + n }

def setAttr (attr : Attr) (insn : Insn) : Insn := { insn with attr }

end Insn

section Buffer

variable (buf : Memory) (e : ℕ)

/-- `peek_nbyte_next` of a byte. -/
def peekNbyteNext (n : ℕ) : Stage Insn UInt8 := do
  let insn ← get
  if insn.nextByte + 1 + n ≤ e then pure (buf (insn.nextByte + n)) else failure

/-- `peek_next` of a byte. -/
def peekNext : Stage Insn UInt8 := peekNbyteNext buf e 0

variable (size : ℕ)

/-- `get_next` of `size` bytes, as the number in them. -/
def getNext : Stage Insn ℕ := do
  let insn ← get
  if insn.nextByte + size ≤ e then do
    modify (Insn.skip size)
    pure (ofBytes (bytesAt buf insn.nextByte size))
  else failure

/-- `get_next (insn_byte_t)`. -/
def getNextByte : Stage Insn UInt8 := UInt8.ofNat <$> getNext buf e 1

def getNextSigned : Stage Insn Int32 :=
  (fun v : ℕ => Int32.ofInt (Int.bmod v (256 ^ size))) <$> getNext buf e size

def getNextUnsignedShort : Stage Insn Int32 := Int32.ofNat <$> getNext buf e 2

def Insn.addPrefix (nb : ℕ) (b : UInt8) (attr : Attr) (insn : Insn) : Insn :=
  { insn with
    prefixes.value := insn.prefixes.value.setIfInBounds nb b
    addrBytes :=
      if isAddressSizePrefix attr then insn.addrBytes ^^^ (if insn.x86_64 then 12 else 6)
      else insn.addrBytes
    opndBytes :=
      if ¬ isAddressSizePrefix attr ∧ isOperandSizePrefix attr then insn.opndBytes ^^^ 6
      else insn.opndBytes }

/-- The label `found`. -/
def Insn.skipPrefix (insn : Insn) : Insn :=
  { insn with prefixes.nbytes := insn.prefixes.nbytes + 1, nextByte := insn.nextByte + 1 }

def legacyPrefixes : ℕ → ℕ → UInt8 → Stage Insn (ℕ × UInt8)
  | 0, _, _ => failure
  | left + 1, nb, lb => do
    let b ← peekNext buf e
    let attr := getOpcodeAttribute b
    if isLegacyPrefix attr then do
      let insn ← get
      if b ∈ insn.prefixes.value.toList.take nb then do
        modify Insn.skipPrefix
        legacyPrefixes left nb b
      else if nb = 4 then pure (nb, lb)
      else do
        modify (Insn.addPrefix nb b attr)
        modify Insn.skipPrefix
        legacyPrefixes left (nb + 1) b
    else pure (nb, lb)

def Insn.setLastPrefix (nb : ℕ) (lb : UInt8) (insn : Insn) : Insn :=
  let bytes := insn.prefixes.value
  if lb ≠ 0 ∧ lb ≠ bytes[3] then
    let swapped :=
      if bytes[3] ≠ 0 then bytes.mapIdx fun i b => if i < nb ∧ b = lb then bytes[3] else b
      else bytes
    { insn with prefixes.value := swapped.set 3 lb }
  else insn

def Insn.setRexPrefix (b : UInt8) (insn : Insn) : Insn :=
  { insn with
    rexPrefix.value := b
    rexPrefix.nbytes := 1
    nextByte := insn.nextByte + 1
    opndBytes := if rexW b then 8 else insn.opndBytes }

/-- Decode a REX prefix. -/
def rexPrefix : Stage Insn Unit := do
  let insn ← get
  if insn.x86_64 then do
    let b ← peekNext buf e
    if isRexPrefix (getOpcodeAttribute b) then modify (Insn.setRexPrefix b) else pure ()
  else pure ()

def Insn.setVexByte (i : Fin 4) (b : UInt8) (insn : Insn) : Insn :=
  { insn with vexPrefix.value := insn.vexPrefix.value.set i b }

def Insn.setVexLength (n : ℕ) (wide : Bool) (insn : Insn) : Insn :=
  { insn with
    vexPrefix.nbytes := n
    nextByte := insn.nextByte + n
    opndBytes := if insn.x86_64 ∧ wide then 8 else insn.opndBytes }

def vexPrefixBytes (attr : Attr) (b b2 : UInt8) : Stage Insn Unit := do
  modify (Insn.setVexByte 0 b)
  modify (Insn.setVexByte 1 b2)
  if isEvexPrefix attr then do
    let b2 ← peekNbyteNext buf e 2
    modify (Insn.setVexByte 2 b2)
    let b2 ← peekNbyteNext buf e 3
    modify (Insn.setVexByte 3 b2)
    modify (Insn.setVexLength 4 (vexW b2))
  else if isVex3Prefix attr then do
    let b2 ← peekNbyteNext buf e 2
    modify (Insn.setVexByte 2 b2)
    modify (Insn.setVexLength 3 (vexW b2))
  else do
    modify (Insn.setVexByte 2 (b2 &&& 0x7f))
    modify (Insn.setVexLength 2 false)

/-- Decode a VEX prefix. -/
def vexPrefix : Stage Insn Unit := do
  let b ← peekNext buf e
  let attr := getOpcodeAttribute b
  if isVexPrefix attr then do
    let b2 ← peekNbyteNext buf e 1
    let insn ← get
    if ¬ insn.x86_64 ∧ modrmMod b2 ≠ 3 then pure () else vexPrefixBytes buf e attr b b2
  else pure ()

/-- The body of `insn_get_prefixes`. -/
def prefixesBody : Stage Insn Unit := do
  let insn ← get
  let last ← legacyPrefixes buf e (e - insn.nextByte) 0 0
  modify (Insn.setLastPrefix last.1 last.2)
  rexPrefix buf e
  modify fun insn => { insn with rexPrefix.got := true }
  vexPrefix buf e
  modify fun insn => { insn with vexPrefix.got := true, prefixes.got := true }

def insnGetPrefixes (insn : Insn) : Insn :=
  if insn.prefixes.got then insn else (prefixesBody buf e).exec insn

def insnIsAvx : Stage Insn Bool := do
  modify (insnGetPrefixes buf e)
  let insn ← get
  pure insn.hasVex

def insnIsEvex : Stage Insn Bool := do
  modify (insnGetPrefixes buf e)
  let insn ← get
  pure (insn.vexPrefix.nbytes = 4)

def insnLastPrefixId : Stage Insn ℕ := do
  let avx ← insnIsAvx buf e
  let insn ← get
  if avx then pure insn.vexPBits
  else if insn.prefixes.value[3] ≠ 0 then pure (getLastPrefixId insn.prefixes.value[3])
  else pure 0

/-- The first opcode byte. -/
def Insn.setOpcode (op : UInt8) (insn : Insn) : Insn :=
  { insn with opcode.value := insn.opcode.value.set 0 op, opcode.nbytes := 1 }

def Insn.addOpcode (op : UInt8) (insn : Insn) : Insn :=
  { insn with
    opcode.value := insn.opcode.value.setIfInBounds insn.opcode.nbytes op
    opcode.nbytes := insn.opcode.nbytes + 1 }

/-- The loop over escapes. -/
def getEscapes : ℕ → Stage Insn Unit
  | 0 => do
    let insn ← get
    if isEscape insn.attr then failure else pure ()
  | left + 1 => do
    let insn ← get
    if isEscape insn.attr then do
      let op ← getNextByte buf e
      modify (Insn.addOpcode op)
      let pfxId ← insnLastPrefixId buf e
      modify fun insn => insn.setAttr (getEscapeAttribute op pfxId insn.attr)
      getEscapes left
    else pure ()

def lacksEvex (attr : Attr) : Stage Insn Bool :=
  if mustEvex attr then (! ·) <$> insnIsEvex buf e else pure false

def avxAttribute (op : UInt8) : Stage Insn Unit := do
  modify fun insn => insn.setAttr (getAvxAttribute op insn.vexMBits insn.vexPBits)
  let insn ← get
  let lacks ← lacksEvex buf e insn.attr
  if lacks ∨ ¬ acceptVex insn.attr ∧ ¬ isGroup insn.attr then modify (Insn.setAttr 0) else pure ()

def legacyAttribute (op : UInt8) : Stage Insn Unit := do
  modify (Insn.setAttr (getOpcodeAttribute op))
  let insn ← get
  getEscapes buf e (e - insn.nextByte)
  let insn ← get
  if mustVex insn.attr then modify (Insn.setAttr 0) else pure ()

/-- The body of `insn_get_opcode`. -/
def opcodeBody : Stage Insn Unit := do
  let op ← getNextByte buf e
  modify (Insn.setOpcode op)
  let avx ← insnIsAvx buf e
  if avx then avxAttribute buf e op else legacyAttribute buf e op

def markOpcode (insn : Insn) : Insn := { insn with opcode.got := true }

def insnGetOpcode (insn : Insn) : Insn :=
  if insn.opcode.got then insn
  else Stage.exec (do opcodeBody buf e; modify markOpcode) (insnGetPrefixes buf e insn)

def groupAttribute (mod : UInt8) : Stage Insn Unit := do
  let insn ← get
  if isGroup insn.attr then do
    let pfxId ← insnLastPrefixId buf e
    modify fun insn => insn.setAttr (getGroupAttribute mod pfxId insn.attr)
    let avx ← insnIsAvx buf e
    let insn ← get
    if avx ∧ ¬ acceptVex insn.attr then modify (Insn.setAttr 0) else pure ()
  else pure ()

def modrmByte : Stage Insn Unit := do
  let insn ← get
  if hasModrm insn.attr then do
    let mod ← getNextByte buf e
    modify fun insn => { insn with modrm.value := mod, modrm.nbytes := 1 }
    groupAttribute buf e mod
  else pure ()

/-- The body of `insn_get_modrm`. -/
def modrmBody : Stage Insn Unit := do
  modrmByte buf e
  modify fun insn =>
    { insn with opndBytes := if insn.x86_64 ∧ isForce64 insn.attr then 8 else insn.opndBytes }

def markModrm (insn : Insn) : Insn := { insn with modrm.got := true }

def insnGetModrm (insn : Insn) : Insn :=
  if insn.modrm.got then insn
  else Stage.exec (do modrmBody buf e; modify markModrm) (insnGetOpcode buf e insn)

/-- The body of `insn_get_sib`. -/
def sibBody : Stage Insn Unit := do
  let insn ← get
  if insn.modrm.nbytes ≠ 0 ∧ insn.addrBytes ≠ 2 ∧ modrmMod insn.modrm.value ≠ 3 ∧
      modrmRm insn.modrm.value = 4 then do
    let sib ← getNextByte buf e
    modify fun insn => { insn with sib.value := sib, sib.nbytes := 1 }
  else pure ()

def markSib (insn : Insn) : Insn := { insn with sib.got := true }

def insnGetSib (insn : Insn) : Insn :=
  if insn.sib.got then insn
  else Stage.exec (do sibBody buf e; modify markSib) (insnGetModrm buf e insn)

def getDisplacement : Stage Insn Unit := do
  let value ← getNextSigned buf e size
  modify fun insn => { insn with displacement.value := value, displacement.nbytes := size }

def Insn.displacementSize (insn : Insn) : ℕ :=
  let mod := modrmMod insn.modrm.value
  let rm := modrmRm insn.modrm.value
  let base := modrmRm insn.sib.value
  if insn.modrm.nbytes = 0 ∨ mod = 3 then 0
  else if mod = 1 then 1
  else if insn.addrBytes = 2 then if mod = 0 ∧ rm = 6 ∨ mod = 2 then 2 else 0
  else if mod = 0 ∧ rm = 5 ∨ mod = 2 ∨ mod = 0 ∧ base = 5 then 4
  else 0

/-- The body of `insn_get_displacement`. -/
def displacementBody : Stage Insn Unit := do
  let insn ← get
  if insn.displacementSize = 0 then pure () else getDisplacement buf e insn.displacementSize

def markDisplacement (insn : Insn) : Insn := { insn with displacement.got := true }

def insnGetDisplacement (insn : Insn) : Insn :=
  if insn.displacement.got then insn
  else Stage.exec (do displacementBody buf e; modify markDisplacement) (insnGetSib buf e insn)

def getImmediate : Stage Insn Unit := do
  let value ← getNextSigned buf e size
  modify fun insn => { insn with immediate.value := value, immediate.nbytes := size }

def getImmediate2 : Stage Insn Unit := do
  let value ← getNextSigned buf e size
  modify fun insn => { insn with immediate2.value := value, immediate2.nbytes := size }

def markImmediates (insn : Insn) : Insn :=
  { insn with immediate.got := true, immediate2.got := true }

def getWord (bytes : UInt8) : Stage Insn Unit :=
  if bytes = 2 then getImmediate buf e 2
  else if bytes = 4 then getImmediate buf e 4
  else if bytes = 8 then do
    getImmediate buf e 4
    getImmediate2 buf e 4
  else failure

/-- `__get_moffset`. -/
def getMoffset : Stage Insn Unit := do
  let insn ← get
  getWord buf e insn.addrBytes
  modify markImmediates

/-- `__get_immv32`. -/
def getImmv32 : Stage Insn Unit := do
  let insn ← get
  if insn.opndBytes = 2 then getImmediate buf e 2
  else if insn.opndBytes = 4 ∨ insn.opndBytes = 8 then getImmediate buf e 4
  else failure

/-- `__get_immv`. -/
def getImmv : Stage Insn Unit := do
  let insn ← get
  getWord buf e insn.opndBytes
  modify markImmediates

def getPointerOffset (bytes : UInt8) : Stage Insn Unit :=
  if bytes = 2 then getImmediate buf e 2
  else if bytes = 4 then getImmediate buf e 4
  else failure

/-- `__get_immptr`. -/
def getImmptr : Stage Insn Unit := do
  let insn ← get
  getPointerOffset buf e insn.opndBytes
  let segment ← getNextUnsignedShort buf e
  modify fun insn => { insn with immediate2.value := segment, immediate2.nbytes := 2 }
  modify markImmediates

/-- The `switch` of `insn_get_immediate`. -/
def firstImmediate : Stage Insn Unit :=
  if size = immByte then getImmediate buf e 1
  else if size = immWord then getImmediate buf e 2
  else if size = immDword then getImmediate buf e 4
  else if size = immQword then do
    getImmediate buf e 4
    getImmediate2 buf e 4
  else if size = immPtr then getImmptr buf e
  else if size = immVword32 then getImmv32 buf e
  else if size = immVword then getImmv buf e
  else failure

/-- The body of `insn_get_immediate`. -/
def immediateBody : Stage Insn Unit := do
  let insn ← get
  if hasMoffset insn.attr then getMoffset buf e
  else if hasImmediate insn.attr then do
    firstImmediate buf e (immediateSize insn.attr)
    if hasSecondImmediate insn.attr then getImmediate2 buf e 1 else pure ()
  else pure ()

variable (insn : Insn)

def markImmediate : Insn := { insn with immediate.got := true }

def insnGetImmediate : Insn :=
  if insn.immediate.got then insn
  else Stage.exec (do immediateBody buf e; modify markImmediate) (insnGetDisplacement buf e insn)

/-- The length is an `unsigned char`. -/
def Insn.setLength : Insn := { insn with length := insn.nextByte % 256 }

def insnGetLength : Insn :=
  if insn.length ≠ 0 then insn
  else if insn.immediate.got then insn.setLength
  else (insnGetImmediate buf e insn).setLength

end Buffer

def classify (insn : Insn) : Decode.Op × Decode.Branch :=
  let op := insn.opcode.value[0]
  let op2 := insn.opcode.value[1]
  if op = 0x0f then
    if op2 = 0x05 ∨ op2 = 0x34 then (.syscall, .indirect)
    else if op2 = 0x07 ∨ op2 = 0x35 then (.sysret, .indirect)
    else if 0x80 ≤ op2 ∧ op2 ≤ 0x8f then (.jcc, .conditional)
    else (.other, .noBranch)
  else if 0x70 ≤ op ∧ op ≤ 0x7f then (.jcc, .conditional)
  else if op = 0xc2 ∨ op = 0xc3 ∨ op = 0xca ∨ op = 0xcb then (.ret, .indirect)
  else if op = 0xcf then (.iret, .indirect)
  else if 0xcc ≤ op ∧ op ≤ 0xce then (.int, .indirect)
  else if op = 0xe8 then (.call, .unconditional)
  else if op = 0x9a then (.call, .indirect)
  else if 0xe0 ≤ op ∧ op ≤ 0xe2 then (.loop, .conditional)
  else if op = 0xe3 then (.jcc, .conditional)
  else if op = 0xe9 ∨ op = 0xeb then (.jmp, .unconditional)
  else if op = 0xea then (.jmp, .indirect)
  else if op = 0xff then
    let ext := (insn.modrm.value >>> 3) &&& 0x7
    if ext = 2 ∨ ext = 3 then (.call, .indirect)
    else if ext = 4 ∨ ext = 5 then (.jmp, .indirect)
    else (.other, .noBranch)
  else (.other, .noBranch)

def intelPtInsnDecoder (buf : Memory) (e : ℕ) (insn : Insn) : Decode.Insn :=
  let insn := insnGetPrefixes buf e insn
  let bytes := bytesAt buf 0 (min insn.length 16)
  if insn.hasVex then { op := .other, branch := .noBranch, length := insn.length, buf := bytes }
  else
    let (op, branch) := classify insn
    { op, branch
      length := insn.length
      rel := if branch = .conditional ∨ branch = .unconditional then insn.immediate.value else 0
      buf := bytes }

/-- `end_kaddr`. -/
def bufferEnd (len : ℕ) : ℕ := (min (Int32.ofNat len).toInt maxInsnSize).toNat

/-- `intel_pt_get_insn`: the instruction at the start of `len` bytes, or -1. -/
def intelPtGetInsn (buf : Memory) (len : ℕ) (x86_64 : Bool) : Option Decode.Insn :=
  let e := bufferEnd len
  let insn := insnGetLength buf e (Insn.init x86_64)
  if ¬ insn.complete ∨ len < insn.length then none else some (intelPtInsnDecoder buf e insn)

end RPerf.X86
