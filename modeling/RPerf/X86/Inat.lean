import RPerf.Lib.ByteFormat

/-!
# Attributes of instructions

`inat.h`, `inat.c` and the generated `inat-tables.c`: what a byte of an opcode says about
the bytes of the instruction behind it.
-/

namespace RPerf.X86

abbrev Attr := ℕ

namespace Inat

def pfxOpndsz : ℕ := 1
def pfxRepe : ℕ := 2
def pfxRepne : ℕ := 3
def pfxLock : ℕ := 4
def pfxCs : ℕ := 5
def pfxDs : ℕ := 6
def pfxEs : ℕ := 7
def pfxFs : ℕ := 8
def pfxGs : ℕ := 9
def pfxSs : ℕ := 10
def pfxAddrsz : ℕ := 11
def pfxRex : ℕ := 12
def pfxVex2 : ℕ := 13
def pfxVex3 : ℕ := 14
def pfxEvex : ℕ := 15

/-- `INAT_LSTPFX_MAX`. -/
def lstpfxMax : ℕ := 3

/-- `INAT_LGCPFX_MAX`. -/
def lgcpfxMax : ℕ := 11

def immByte : ℕ := 1
def immWord : ℕ := 2
def immDword : ℕ := 3
def immQword : ℕ := 4
def immPtr : ℕ := 5
def immVword32 : ℕ := 6
def immVword : ℕ := 7

def modrm : Attr := 1 <<< 14
def force64 : Attr := 1 <<< 15
def scndimm : Attr := 1 <<< 16
def moffset : Attr := 1 <<< 17
def variant : Attr := 1 <<< 18
def vexok : Attr := 1 <<< 19
def vexonly : Attr := 1 <<< 20
def evexonly : Attr := 1 <<< 21

/-- `INAT_GRP_MASK`. -/
def grpMask : Attr := 31 <<< 6

def makePrefix (pfx : ℕ) : Attr := pfx
def makeEscape (esc : ℕ) : Attr := esc <<< 4
def makeGroup (grp : ℕ) : Attr := grp <<< 6 ||| modrm
def makeImm (imm : ℕ) : Attr := imm <<< 11

variable (attr : Attr)

/-- The field of `bits` bits at `offs`. -/
def field (offs bits : ℕ) : ℕ := (attr >>> offs) % 2 ^ bits

/-- `attr & INAT_PFX_MASK`. -/
def pfxId : ℕ := field attr 0 4

def isLegacyPrefix : Bool := pfxId attr ≠ 0 ∧ pfxId attr ≤ lgcpfxMax

def isAddressSizePrefix : Bool := pfxId attr = pfxAddrsz

def isOperandSizePrefix : Bool := pfxId attr = pfxOpndsz

def isRexPrefix : Bool := pfxId attr = pfxRex

def lastPrefixId : ℕ := if lstpfxMax < pfxId attr then 0 else pfxId attr

def isVexPrefix : Bool :=
  pfxId attr = pfxVex2 ∨ pfxId attr = pfxVex3 ∨ pfxId attr = pfxEvex

def isEvexPrefix : Bool := pfxId attr = pfxEvex

def isVex3Prefix : Bool := pfxId attr = pfxVex3

def escapeId : ℕ := field attr 4 2

def isEscape : Bool := escapeId attr ≠ 0

def groupId : ℕ := field attr 6 5

def isGroup : Bool := groupId attr ≠ 0

/-- `attr & ~INAT_GRP_MASK`. -/
def groupCommonAttribute : Attr := attr &&& (0xffffffff ^^^ grpMask)

def immediateSize : ℕ := field attr 11 3

def hasImmediate : Bool := immediateSize attr ≠ 0

def hasModrm : Bool := attr.testBit 14

def isForce64 : Bool := attr.testBit 15

def hasSecondImmediate : Bool := attr.testBit 16

def hasMoffset : Bool := attr.testBit 17

def hasVariant : Bool := attr.testBit 18

def acceptVex : Bool := attr.testBit 19

def mustVex : Bool := attr.testBit 20 || attr.testBit 21

def mustEvex : Bool := attr.testBit 21

abbrev Table := List (Attr × List (UInt8 × UInt8))

/-- The attribute of an opcode. -/
def Table.get (table : Table) (opcode : UInt8) : Attr :=
  ((table.find? fun row => row.2.any fun r => r.1 ≤ opcode ∧ opcode ≤ r.2).map Prod.fst).getD 0

/-- One byte opcodes. -/
def primaryTable : Table := [
    (modrm, [(0x00, 0x03), (0x08, 0x0b), (0x10, 0x13), (0x18, 0x1b), (0x20, 0x23), (0x28, 0x2b),
      (0x30, 0x33), (0x38, 0x3b), (0x63, 0x63), (0x84, 0x8e), (0xd8, 0xdf)]),
    (makeImm immByte, [(0x04, 0x04), (0x0c, 0x0c), (0x14, 0x14), (0x1c, 0x1c), (0x24, 0x24),
      (0x2c, 0x2c), (0x34, 0x34), (0x3c, 0x3c), (0x70, 0x7f), (0xa8, 0xa8), (0xb0, 0xb7),
      (0xcd, 0xcd), (0xd4, 0xd5), (0xe4, 0xe7)]),
    (makeImm immVword32, [(0x05, 0x05), (0x0d, 0x0d), (0x15, 0x15), (0x1d, 0x1d), (0x25, 0x25),
      (0x2d, 0x2d), (0x35, 0x35), (0x3d, 0x3d), (0xa9, 0xa9)]),
    (makeEscape 1, [(0x0f, 0x0f)]),
    (makePrefix pfxEs, [(0x26, 0x26)]),
    (makePrefix pfxCs, [(0x2e, 0x2e)]),
    (makePrefix pfxSs, [(0x36, 0x36)]),
    (makePrefix pfxDs, [(0x3e, 0x3e)]),
    (makePrefix pfxRex, [(0x40, 0x4f)]),
    (force64, [(0x50, 0x5f), (0x9c, 0x9d), (0xc9, 0xc9)]),
    (modrm ||| makePrefix pfxEvex, [(0x62, 0x62)]),
    (makePrefix pfxFs, [(0x64, 0x64)]),
    (makePrefix pfxGs, [(0x65, 0x65)]),
    (makePrefix pfxOpndsz, [(0x66, 0x66)]),
    (makePrefix pfxAddrsz, [(0x67, 0x67)]),
    (makeImm immVword32 ||| force64, [(0x68, 0x68), (0xe8, 0xe9)]),
    (makeImm immVword32 ||| modrm, [(0x69, 0x69)]),
    (makeImm immByte ||| force64, [(0x6a, 0x6a), (0xe0, 0xe3), (0xeb, 0xeb)]),
    (makeImm immByte ||| modrm, [(0x6b, 0x6b)]),
    (makeImm immByte ||| makeGroup 1, [(0x80, 0x80), (0x82, 0x83)]),
    (makeImm immVword32 ||| makeGroup 1, [(0x81, 0x81)]),
    (makeGroup 2 ||| force64, [(0x8f, 0x8f)]),
    (makeImm immPtr, [(0x9a, 0x9a), (0xea, 0xea)]),
    (moffset, [(0xa0, 0xa3)]),
    (makeImm immVword, [(0xb8, 0xbf)]),
    (makeImm immByte ||| makeGroup 3, [(0xc0, 0xc1)]),
    (makeImm immWord ||| force64, [(0xc2, 0xc2)]),
    (modrm ||| makePrefix pfxVex3, [(0xc4, 0xc4)]),
    (modrm ||| makePrefix pfxVex2, [(0xc5, 0xc5)]),
    (makeImm immByte ||| makeGroup 4, [(0xc6, 0xc6)]),
    (makeImm immVword32 ||| makeGroup 5, [(0xc7, 0xc7)]),
    (makeImm immWord ||| scndimm, [(0xc8, 0xc8)]),
    (makeImm immWord, [(0xca, 0xca)]),
    (makeGroup 3, [(0xd0, 0xd3)]),
    (makePrefix pfxLock, [(0xf0, 0xf0)]),
    (makePrefix pfxRepne, [(0xf2, 0xf2)]),
    (makePrefix pfxRepe, [(0xf3, 0xf3)]),
    (makeGroup 6, [(0xf6, 0xf6)]),
    (makeGroup 7, [(0xf7, 0xf7)]),
    (makeGroup 8, [(0xfe, 0xfe)]),
    (makeGroup 9, [(0xff, 0xff)])]

def escapeTable1 : Table := [
    (makeGroup 10, [(0x00, 0x00)]),
    (makeGroup 11, [(0x01, 0x01)]),
    (modrm, [(0x02, 0x03), (0x1f, 0x23), (0x40, 0x40), (0x43, 0x43), (0x48, 0x49), (0x4c, 0x4f),
      (0x94, 0x97), (0x9a, 0x9f), (0xa3, 0xa3), (0xa5, 0xa5), (0xab, 0xab), (0xad, 0xad),
      (0xaf, 0xb7), (0xbb, 0xbb), (0xbe, 0xc1), (0xc3, 0xc3)]),
    (makeGroup 12, [(0x0d, 0x0d)]),
    (makeImm immByte ||| modrm, [(0x0f, 0x0f), (0xa4, 0xa4), (0xac, 0xac)]),
    (modrm ||| vexok ||| variant, [(0x10, 0x17), (0x28, 0x29), (0x2b, 0x2b), (0x2e, 0x2f),
      (0x41, 0x42), (0x44, 0x47), (0x4a, 0x4b), (0x50, 0x5f), (0x78, 0x79), (0x90, 0x93),
      (0x98, 0x99)]),
    (makeGroup 13, [(0x18, 0x18)]),
    (modrm ||| variant, [(0x1a, 0x1b), (0x2a, 0x2a), (0x2c, 0x2d), (0x60, 0x6b), (0x6e, 0x6f),
      (0x74, 0x76), (0x7e, 0x7f), (0xbc, 0xbd), (0xd1, 0xd5), (0xd7, 0xe5), (0xe7, 0xef),
      (0xf1, 0xfe)]),
    (makeEscape 2, [(0x38, 0x38)]),
    (makeEscape 3, [(0x3a, 0x3a)]),
    (variant, [(0x6c, 0x6d), (0x7a, 0x7d), (0xb8, 0xb8), (0xd0, 0xd0), (0xd6, 0xd6), (0xe6, 0xe6),
      (0xf0, 0xf0)]),
    (makeImm immByte ||| modrm ||| variant, [(0x70, 0x70), (0xc4, 0xc5)]),
    (makeGroup 14, [(0x71, 0x71)]),
    (makeGroup 15, [(0x72, 0x72)]),
    (makeGroup 16, [(0x73, 0x73)]),
    (vexok, [(0x77, 0x77)]),
    (makeImm immVword32 ||| force64, [(0x80, 0x8f)]),
    (force64, [(0xa0, 0xa1), (0xa8, 0xa9)]),
    (makeGroup 17, [(0xa6, 0xa6)]),
    (makeGroup 18, [(0xa7, 0xa7)]),
    (makeGroup 19, [(0xae, 0xae)]),
    (makeGroup 20, [(0xb9, 0xb9)]),
    (makeImm immByte ||| makeGroup 21, [(0xba, 0xba)]),
    (makeImm immByte ||| modrm ||| vexok ||| variant, [(0xc2, 0xc2), (0xc6, 0xc6)]),
    (makeGroup 22, [(0xc7, 0xc7)])]

def escapeTable1_1 : Table := [
    (modrm ||| vexok, [(0x10, 0x17), (0x28, 0x29), (0x2b, 0x2b), (0x2e, 0x2f), (0x41, 0x42),
      (0x44, 0x47), (0x4a, 0x4b), (0x50, 0x51), (0x54, 0x6f), (0x74, 0x76), (0x7c, 0x7f),
      (0x90, 0x93), (0x98, 0x99), (0xd0, 0xef), (0xf1, 0xfe)]),
    (modrm, [(0x1a, 0x1b), (0x2a, 0x2a), (0x2c, 0x2d), (0xbc, 0xbd)]),
    (makeImm immByte ||| modrm ||| vexok, [(0x70, 0x70), (0xc2, 0xc2), (0xc4, 0xc6)]),
    (modrm ||| vexok ||| evexonly, [(0x78, 0x7b)])]

def escapeTable1_2 : Table := [
    (modrm ||| vexok, [(0x10, 0x12), (0x16, 0x16), (0x2a, 0x2a), (0x2c, 0x2d), (0x51, 0x53),
      (0x58, 0x5f), (0x6f, 0x6f), (0x7e, 0x7f), (0xe6, 0xe6)]),
    (modrm, [(0x1a, 0x1b), (0xb8, 0xb8), (0xbc, 0xbd), (0xd6, 0xd6)]),
    (makeImm immByte ||| modrm ||| vexok, [(0x70, 0x70), (0xc2, 0xc2)]),
    (modrm ||| vexok ||| evexonly, [(0x78, 0x7b)])]

def escapeTable1_3 : Table := [
    (modrm ||| vexok, [(0x10, 0x12), (0x2a, 0x2a), (0x2c, 0x2d), (0x51, 0x51), (0x58, 0x5a),
      (0x5c, 0x5f), (0x7c, 0x7d), (0x92, 0x93), (0xd0, 0xd0), (0xe6, 0xe6), (0xf0, 0xf0)]),
    (modrm, [(0x1a, 0x1b), (0xbc, 0xbd), (0xd6, 0xd6)]),
    (modrm ||| vexok ||| evexonly, [(0x6f, 0x6f), (0x78, 0x7b), (0x7f, 0x7f)]),
    (makeImm immByte ||| modrm ||| vexok, [(0x70, 0x70), (0xc2, 0xc2)])]

def escapeTable2 : Table := [
    (modrm ||| variant, [(0x00, 0x0b), (0x1c, 0x1e), (0xc8, 0xc8), (0xca, 0xcd), (0xf0, 0xf1)]),
    (variant, [(0x0c, 0x1b), (0x1f, 0x47), (0x4c, 0x4f), (0x58, 0x5b), (0x64, 0x66), (0x75, 0x83),
      (0x88, 0x8e), (0x90, 0x93), (0x96, 0xa3), (0xa6, 0xaf), (0xb4, 0xbf), (0xc4, 0xc4),
      (0xdb, 0xdf), (0xf6, 0xf6)]),
    (makeGroup 23, [(0xc6, 0xc6)]),
    (makeGroup 24, [(0xc7, 0xc7)]),
    (modrm, [(0xc9, 0xc9)]),
    (modrm ||| vexok ||| vexonly, [(0xf2, 0xf2)]),
    (makeGroup 25, [(0xf3, 0xf3)]),
    (modrm ||| vexok ||| vexonly ||| variant, [(0xf5, 0xf5), (0xf7, 0xf7)])]

def escapeTable2_1 : Table := [
    (modrm ||| vexok, [(0x00, 0x0b), (0x10, 0x10), (0x14, 0x15), (0x17, 0x17), (0x1c, 0x1e),
      (0x20, 0x25), (0x28, 0x2b), (0x30, 0x35), (0x37, 0x41), (0xdb, 0xdf)]),
    (modrm ||| vexok ||| vexonly, [(0x0c, 0x0f), (0x13, 0x13), (0x16, 0x16), (0x18, 0x1a),
      (0x2c, 0x2f), (0x36, 0x36), (0x45, 0x47), (0x58, 0x5a), (0x78, 0x79), (0x8c, 0x8c),
      (0x8e, 0x8e), (0x90, 0x93), (0x96, 0x9f), (0xa6, 0xaf), (0xb6, 0xbf), (0xf7, 0xf7)]),
    (modrm ||| vexok ||| evexonly, [(0x11, 0x12), (0x1b, 0x1b), (0x1f, 0x1f), (0x26, 0x27),
      (0x42, 0x44), (0x4c, 0x4f), (0x5b, 0x5b), (0x64, 0x66), (0x75, 0x77), (0x7a, 0x7f),
      (0x83, 0x83), (0x88, 0x8b), (0x8d, 0x8d), (0xa0, 0xa3), (0xb4, 0xb5), (0xc4, 0xc4),
      (0xc8, 0xc8), (0xca, 0xcd)]),
    (modrm, [(0x80, 0x82), (0xf0, 0xf1), (0xf6, 0xf6)])]

def escapeTable2_2 : Table := [
    (modrm ||| vexok ||| evexonly, [(0x10, 0x15), (0x20, 0x2a), (0x30, 0x35), (0x38, 0x3a)]),
    (modrm ||| vexok ||| vexonly, [(0xf5, 0xf5), (0xf7, 0xf7)]),
    (modrm, [(0xf6, 0xf6)])]

def escapeTable2_3 : Table := [
    (modrm, [(0xf0, 0xf1)]),
    (modrm ||| vexok ||| vexonly, [(0xf5, 0xf7)])]

def escapeTable3 : Table := [
    (variant, [(0x00, 0x06), (0x08, 0x0e), (0x14, 0x1b), (0x1d, 0x23), (0x25, 0x27), (0x30, 0x33),
      (0x38, 0x3b), (0x3e, 0x44), (0x46, 0x46), (0x4a, 0x4c), (0x50, 0x51), (0x54, 0x57),
      (0x60, 0x63), (0x66, 0x67), (0xdf, 0xdf), (0xf0, 0xf0)]),
    (makeImm immByte ||| modrm ||| variant, [(0x0f, 0x0f)]),
    (makeImm immByte ||| modrm, [(0xcc, 0xcc)])]

def escapeTable3_1 : Table := [
    (makeImm immByte ||| modrm ||| vexok ||| vexonly, [(0x00, 0x02), (0x04, 0x06), (0x18, 0x19),
      (0x1d, 0x1d), (0x30, 0x33), (0x38, 0x39), (0x46, 0x46), (0x4a, 0x4b)]),
    (makeImm immByte ||| modrm ||| vexok ||| evexonly, [(0x03, 0x03), (0x1a, 0x1b), (0x1e, 0x1f),
      (0x23, 0x23), (0x25, 0x27), (0x3a, 0x3b), (0x3e, 0x3f), (0x43, 0x43), (0x50, 0x51),
      (0x54, 0x57), (0x66, 0x67)]),
    (makeImm immByte ||| modrm ||| vexok, [(0x08, 0x0f), (0x14, 0x17), (0x20, 0x22), (0x40, 0x42),
      (0x44, 0x44), (0x4c, 0x4c), (0x60, 0x63), (0xdf, 0xdf)])]

def escapeTable3_3 : Table := [
    (makeImm immByte ||| modrm ||| vexok ||| vexonly, [(0xf0, 0xf0)])]

def groupTable6 : Table := [
    (makeImm immByte ||| modrm, [(0x0, 0x1)]),
    (modrm, [(0x2, 0x7)])]

def groupTable7 : Table := [
    (makeImm immVword32 ||| modrm, [(0x0, 0x0)]),
    (modrm, [(0x2, 0x7)])]

def groupTable8 : Table := [
    (modrm, [(0x0, 0x1)])]

def groupTable9 : Table := [
    (modrm, [(0x0, 0x1), (0x3, 0x3), (0x5, 0x5)]),
    (modrm ||| force64, [(0x2, 0x2), (0x4, 0x4), (0x6, 0x6)])]

def groupTable10 : Table := [
    (modrm, [(0x0, 0x5)])]

def groupTable11 : Table := [
    (modrm, [(0x0, 0x4), (0x6, 0x7)])]

def groupTable22 : Table := [
    (modrm, [(0x1, 0x1)]),
    (modrm ||| variant, [(0x6, 0x7)])]

def groupTable22_1 : Table := [
    (modrm, [(0x6, 0x6)])]

def groupTable22_2 : Table := [
    (modrm, [(0x6, 0x7)])]

def groupTable4 : Table := [
    (makeImm immByte ||| modrm, [(0x0, 0x0)]),
    (makeImm immByte, [(0x7, 0x7)])]

def groupTable5 : Table := [
    (makeImm immVword32 ||| modrm, [(0x0, 0x0)]),
    (makeImm immVword32, [(0x7, 0x7)])]

def groupTable14 : Table := [
    (makeImm immByte ||| modrm ||| variant, [(0x2, 0x2), (0x4, 0x4), (0x6, 0x6)])]

def groupTable14_1 : Table := [
    (makeImm immByte ||| modrm ||| vexok, [(0x2, 0x2), (0x4, 0x4), (0x6, 0x6)])]

def groupTable15 : Table := [
    (variant, [(0x0, 0x1)]),
    (makeImm immByte ||| modrm ||| variant, [(0x2, 0x2), (0x4, 0x4), (0x6, 0x6)])]

def groupTable15_1 : Table := [
    (makeImm immByte ||| modrm ||| vexok ||| evexonly, [(0x0, 0x1)]),
    (makeImm immByte ||| modrm ||| vexok, [(0x2, 0x2), (0x4, 0x4), (0x6, 0x6)])]

def groupTable16 : Table := [
    (makeImm immByte ||| modrm ||| variant, [(0x2, 0x2), (0x6, 0x6)]),
    (variant, [(0x3, 0x3), (0x7, 0x7)])]

def groupTable16_1 : Table := [
    (makeImm immByte ||| modrm ||| vexok, [(0x2, 0x3), (0x6, 0x7)])]

def groupTable19 : Table := [
    (variant, [(0x0, 0x1), (0x4, 0x4)]),
    (modrm ||| vexok ||| variant, [(0x2, 0x3)])]

def groupTable19_2 : Table := [
    (modrm, [(0x0, 0x4)])]

def groupTable13 : Table := [
    (modrm, [(0x0, 0x3)])]

def groupTable25 : Table := [
    (modrm ||| vexok ||| vexonly, [(0x1, 0x3)])]

def groupTable23 : Table := [
    (variant, [(0x1, 0x2), (0x5, 0x6)])]

def groupTable23_1 : Table := [
    (modrm ||| vexok ||| evexonly, [(0x1, 0x2), (0x5, 0x6)])]

def groupTable24 : Table := [
    (variant, [(0x1, 0x2), (0x5, 0x6)])]

def groupTable24_1 : Table := [
    (modrm ||| vexok ||| evexonly, [(0x1, 0x2), (0x5, 0x6)])]

/-- `inat_escape_tables`; a null pointer is `none`. -/
def escapeTables : ℕ → ℕ → Option Table
  | 1, 0 => some escapeTable1
  | 1, 1 => some escapeTable1_1
  | 1, 2 => some escapeTable1_2
  | 1, 3 => some escapeTable1_3
  | 2, 0 => some escapeTable2
  | 2, 1 => some escapeTable2_1
  | 2, 2 => some escapeTable2_2
  | 2, 3 => some escapeTable2_3
  | 3, 0 => some escapeTable3
  | 3, 1 => some escapeTable3_1
  | 3, 3 => some escapeTable3_3
  | _, _ => none

/-- `inat_group_tables`. -/
def groupTables : ℕ → ℕ → Option Table
  | 4, 0 => some groupTable4
  | 5, 0 => some groupTable5
  | 6, 0 => some groupTable6
  | 7, 0 => some groupTable7
  | 8, 0 => some groupTable8
  | 9, 0 => some groupTable9
  | 10, 0 => some groupTable10
  | 11, 0 => some groupTable11
  | 13, 0 => some groupTable13
  | 14, 0 => some groupTable14
  | 14, 1 => some groupTable14_1
  | 15, 0 => some groupTable15
  | 15, 1 => some groupTable15_1
  | 16, 0 => some groupTable16
  | 16, 1 => some groupTable16_1
  | 19, 0 => some groupTable19
  | 19, 2 => some groupTable19_2
  | 22, 0 => some groupTable22
  | 22, 1 => some groupTable22_1
  | 22, 2 => some groupTable22_2
  | 23, 0 => some groupTable23
  | 23, 1 => some groupTable23_1
  | 24, 0 => some groupTable24
  | 24, 1 => some groupTable24_1
  | 25, 0 => some groupTable25
  | _, _ => none

def avxTables : ℕ → ℕ → Option Table := escapeTables

def getOpcodeAttribute (opcode : UInt8) : Attr := primaryTable.get opcode

def getLastPrefixId (lastPfx : UInt8) : ℕ := lastPrefixId (getOpcodeAttribute lastPfx)

def getEscapeAttribute (opcode : UInt8) (lpfxId : ℕ) (escAttr : Attr) : Attr :=
  let n := escapeId escAttr
  match escapeTables n 0 with
  | none => 0
  | some table =>
    if hasVariant (table.get opcode) ∧ lpfxId ≠ 0 then
      match escapeTables n lpfxId with
      | none => 0
      | some table => table.get opcode
    else table.get opcode

/-- `X86_MODRM_REG`. -/
def modrmReg (modrm : UInt8) : UInt8 := (modrm &&& 0x38) >>> 3

def getGroupAttribute (modrm : UInt8) (lpfxId : ℕ) (grpAttr : Attr) : Attr :=
  let n := groupId grpAttr
  match groupTables n 0 with
  | none => groupCommonAttribute grpAttr
  | some table =>
    if hasVariant (table.get (modrmReg modrm)) ∧ lpfxId ≠ 0 then
      match groupTables n lpfxId with
      | none => groupCommonAttribute grpAttr
      | some table => table.get (modrmReg modrm) ||| groupCommonAttribute grpAttr
    else table.get (modrmReg modrm) ||| groupCommonAttribute grpAttr

def getAvxAttribute (opcode : UInt8) (vexM vexP : ℕ) : Attr :=
  if 0x1f < vexM ∨ lstpfxMax < vexP then 0
  else
    match avxTables vexM 0 with
    | none => 0
    | some table =>
      if ¬ isGroup (table.get opcode) ∧ vexP ≠ 0 then
        match avxTables vexM vexP with
        | none => 0
        | some table => table.get opcode
      else table.get opcode

end Inat

end RPerf.X86
