import Rv64Codegen.Isa.Range

namespace Rv64Codegen

/-!
# Instruction words

A word is the sum of its fields, each at the weight of its lowest bit.  Each of
the six layouts has an assembler, which refuses a field that is too wide, and
`Word.fields` reads the fields back.
-/

/-- A 32-bit instruction word. -/
abbrev Word := UInt32

/-- The fields from which a word is assembled; a layout uses those it has. -/
structure RawFields where
  opcode : Nat
  rd : Nat
  funct3 : Nat
  rs1 : Nat
  rs2 : Nat
  funct7 : Nat
  imm : Nat
  deriving Repr, DecidableEq

namespace RawFields

/-- Register-register layout. -/
def assembleR (raw : RawFields) : Except EmissionError Word := do
  let opcode ← checkedField .opcode 7 raw.opcode
  let rd ← checkedField .rd 5 raw.rd
  let funct3 ← checkedField .funct3 3 raw.funct3
  let rs1 ← checkedField .rs1 5 raw.rs1
  let rs2 ← checkedField .rs2 5 raw.rs2
  let funct7 ← checkedField .funct7 7 raw.funct7
  pure (UInt32.ofNat
    (opcode + rd <<< 7 + funct3 <<< 12 + rs1 <<< 15 +
      rs2 <<< 20 + funct7 <<< 25))

/-- Register-immediate layout. -/
def assembleI (raw : RawFields) : Except EmissionError Word := do
  let opcode ← checkedField .opcode 7 raw.opcode
  let rd ← checkedField .rd 5 raw.rd
  let funct3 ← checkedField .funct3 3 raw.funct3
  let rs1 ← checkedField .rs1 5 raw.rs1
  let imm ← checkedField .imm12 12 raw.imm
  pure (UInt32.ofNat
    (opcode + rd <<< 7 + funct3 <<< 12 + rs1 <<< 15 + imm <<< 20))

/-- Store layout: the immediate is split around the two source registers. -/
def assembleS (raw : RawFields) : Except EmissionError Word := do
  let imm ← checkedField .imm12 12 raw.imm
  let opcode ← checkedField .opcode 7 raw.opcode
  let funct3 ← checkedField .funct3 3 raw.funct3
  let rs1 ← checkedField .rs1 5 raw.rs1
  let rs2 ← checkedField .rs2 5 raw.rs2
  pure (UInt32.ofNat
    (opcode + (imm % 32) <<< 7 + funct3 <<< 12 + rs1 <<< 15 +
      rs2 <<< 20 + (imm >>> 5) <<< 25))

/-- Upper-immediate layout. -/
def assembleU (raw : RawFields) : Except EmissionError Word := do
  let opcode ← checkedField .opcode 7 raw.opcode
  let rd ← checkedField .rd 5 raw.rd
  let imm ← checkedField .imm20 20 raw.imm
  pure (UInt32.ofNat (opcode + rd <<< 7 + imm <<< 12))

/-- An offset pattern whose lowest bit is clear, because no word carries it. -/
def evenField
    (field : Field)
    (bits value : Nat) :
    Except EmissionError Nat := do
  let imm ← checkedField field bits value
  if imm % 2 = 0 then
    pure imm
  else
    throw (.misaligned field imm 2)

/-- Branch layout: the bits of the offset are scattered, its sign at the top. -/
def assembleB (raw : RawFields) : Except EmissionError Word := do
  let imm ← evenField .imm13 13 raw.imm
  let opcode ← checkedField .opcode 7 raw.opcode
  let funct3 ← checkedField .funct3 3 raw.funct3
  let rs1 ← checkedField .rs1 5 raw.rs1
  let rs2 ← checkedField .rs2 5 raw.rs2
  pure (UInt32.ofNat
    (opcode + ((imm >>> 11) % 2) <<< 7 + ((imm >>> 1) % 16) <<< 8 +
      funct3 <<< 12 + rs1 <<< 15 + rs2 <<< 20 +
      ((imm >>> 5) % 64) <<< 25 + ((imm >>> 12) % 2) <<< 31))

/-- Jump layout: the bits of the offset are scattered, its sign at the top. -/
def assembleJ (raw : RawFields) : Except EmissionError Word := do
  let imm ← evenField .imm21 21 raw.imm
  let opcode ← checkedField .opcode 7 raw.opcode
  let rd ← checkedField .rd 5 raw.rd
  pure (UInt32.ofNat
    (opcode + rd <<< 7 + ((imm >>> 12) % 256) <<< 12 +
      ((imm >>> 11) % 2) <<< 20 + ((imm >>> 1) % 1024) <<< 21 +
      ((imm >>> 20) % 2) <<< 31))

/-- Assemble a word in the given layout. -/
def assemble (format : Format) (raw : RawFields) : Except EmissionError Word :=
  match format with
  | .r => raw.assembleR
  | .i => raw.assembleI
  | .s => raw.assembleS
  | .b => raw.assembleB
  | .u => raw.assembleU
  | .j => raw.assembleJ

end RawFields

namespace Word

/-- The number that `count` bits of a word stand for, from bit `low` upwards. -/
def bits (word : Word) (low count : Nat) : Nat :=
  (word.toNat >>> low) % (1 <<< count)

/-- The major opcode. -/
def opcode (word : Word) : Nat :=
  word.bits 0 7

/-- The destination register. -/
def rd (word : Word) : Nat :=
  word.bits 7 5

/-- The minor opcode. -/
def funct3 (word : Word) : Nat :=
  word.bits 12 3

/-- The first source register. -/
def rs1 (word : Word) : Nat :=
  word.bits 15 5

/-- The second source register. -/
def rs2 (word : Word) : Nat :=
  word.bits 20 5

/-- The function bits of the register-register layout. -/
def funct7 (word : Word) : Nat :=
  word.bits 25 7

/-- The immediate of the register-immediate layout. -/
def immI (word : Word) : Int :=
  signExtend 12 (word.bits 20 12)

/-- The immediate of the store layout. -/
def immS (word : Word) : Int :=
  signExtend 12 (word.bits 25 7 <<< 5 + word.bits 7 5)

/-- The byte offset of the branch layout. -/
def immB (word : Word) : Int :=
  signExtend 13
    (word.bits 31 1 <<< 12 + word.bits 7 1 <<< 11 +
      word.bits 25 6 <<< 5 + word.bits 8 4 <<< 1)

/-- The immediate of the upper-immediate layout, not shifted. -/
def immU (word : Word) : Int :=
  signExtend 20 (word.bits 12 20)

/-- The byte offset of the jump layout. -/
def immJ (word : Word) : Int :=
  signExtend 21
    (word.bits 31 1 <<< 20 + word.bits 12 8 <<< 12 +
      word.bits 20 1 <<< 11 + word.bits 21 10 <<< 1)

/-- The fields of a word as one layout reads them; absent fields are zero. -/
structure Fields where
  opcode : Nat
  rd : Nat
  funct3 : Nat
  rs1 : Nat
  rs2 : Nat
  funct7 : Nat
  imm : Int
  deriving Repr, DecidableEq

/-- Read the fields of a word in the given layout. -/
def fields (format : Format) (word : Word) : Fields :=
  match format with
  | .r => ⟨word.opcode, word.rd, word.funct3, word.rs1, word.rs2, word.funct7, 0⟩
  | .i => ⟨word.opcode, word.rd, word.funct3, word.rs1, 0, 0, word.immI⟩
  | .s => ⟨word.opcode, 0, word.funct3, word.rs1, word.rs2, 0, word.immS⟩
  | .b => ⟨word.opcode, 0, word.funct3, word.rs1, word.rs2, 0, word.immB⟩
  | .u => ⟨word.opcode, word.rd, 0, 0, 0, 0, word.immU⟩
  | .j => ⟨word.opcode, word.rd, 0, 0, 0, 0, word.immJ⟩

end Word

end Rv64Codegen
