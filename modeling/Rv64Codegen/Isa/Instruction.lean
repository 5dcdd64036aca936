import Rv64Codegen.Isa.Word

namespace Rv64Codegen

/-!
# Instructions

An instruction is an opcode with operands in the shape of one layout.  Its word
exists when the opcode has that layout, the immediate is in range and every
register number fits; the reasons are reported in that order.
-/

/-- An opcode with its operands, in the shape of one of the six layouts. -/
inductive Instruction where
  | r (op : Opcode) (rd rs1 rs2 : Register)
  | i (op : Opcode) (rd rs1 : Register) (imm : Int)
  | s (op : Opcode) (rs2 rs1 : Register) (imm : Int)
  | u (op : Opcode) (rd : Register) (imm : Int)
  | b (op : Opcode) (rs1 rs2 : Register) (offset : Int)
  | j (op : Opcode) (rd : Register) (offset : Int)
  deriving Repr, DecidableEq

namespace Opcode

/-- The fixed fields of an opcode, provided that it has the given layout. -/
def expect
    (opcode : Opcode)
    (format : Format) :
    Except EmissionError FixedFields :=
  if opcode.format = format then
    .ok opcode.fixedFields
  else
    .error (.formatMismatch opcode format opcode.format)

/--
The immediate pattern of a register-immediate opcode: a shift amount under the
fixed bits of its shift, or a signed 12-bit number.
-/
def immediatePattern
    (opcode : Opcode)
    (imm : Int) :
    Except EmissionError Nat :=
  match opcode.shift? with
  | some shift =>
      if FitsUnsigned shift.amountBits imm then
        .ok (shift.high + imm.toNat)
      else
        .error (.fieldOverflow .shamt imm shift.amountBits)
  | none =>
      signedPattern .imm12 12 imm

end Opcode

namespace Instruction

/-- The word of an instruction, or the reason why it has none. -/
def encode : Instruction → Except EmissionError Word
  | .r op rd rs1 rs2 => do
      let fixed ← op.expect .r
      RawFields.assembleR {
        opcode := fixed.major.code
        rd := rd.index
        funct3 := fixed.funct3
        rs1 := rs1.index
        rs2 := fixed.fixedRs2.getD rs2.index
        funct7 := fixed.funct7
        imm := 0 }
  | .i op rd rs1 imm => do
      let fixed ← op.expect .i
      let pattern ← op.immediatePattern imm
      RawFields.assembleI {
        opcode := fixed.major.code
        rd := rd.index
        funct3 := fixed.funct3
        rs1 := rs1.index
        rs2 := 0
        funct7 := 0
        imm := pattern }
  | .s op rs2 rs1 imm => do
      let fixed ← op.expect .s
      let pattern ← signedPattern .imm12 12 imm
      RawFields.assembleS {
        opcode := fixed.major.code
        rd := 0
        funct3 := fixed.funct3
        rs1 := rs1.index
        rs2 := rs2.index
        funct7 := 0
        imm := pattern }
  | .u op rd imm => do
      let fixed ← op.expect .u
      let pattern ← signedPattern .imm20 20 imm
      RawFields.assembleU {
        opcode := fixed.major.code
        rd := rd.index
        funct3 := 0
        rs1 := 0
        rs2 := 0
        funct7 := 0
        imm := pattern }
  | .b op rs1 rs2 offset => do
      let fixed ← op.expect .b
      let pattern ← evenPattern .imm13 13 offset
      RawFields.assembleB {
        opcode := fixed.major.code
        rd := 0
        funct3 := fixed.funct3
        rs1 := rs1.index
        rs2 := rs2.index
        funct7 := 0
        imm := pattern }
  | .j op rd offset => do
      let fixed ← op.expect .j
      let pattern ← evenPattern .imm21 21 offset
      RawFields.assembleJ {
        opcode := fixed.major.code
        rd := rd.index
        funct3 := 0
        rs1 := 0
        rs2 := 0
        funct7 := 0
        imm := pattern }

/--
The words of a list of instructions up to the first that has none, and the
reason why that one has none.
-/
def encodeUntilRefused :
    List Instruction →
      List Word × Option EmissionError
  | [] =>
      ([], none)
  | instruction :: rest =>
      match instruction.encode with
      | .error cause =>
          ([], some cause)
      | .ok word =>
          let (words, refusal) := encodeUntilRefused rest
          (word :: words, refusal)

/-- The words of a list of instructions, all of which must have one. -/
def encodeAll
    (instructions : List Instruction) :
    Except EmissionError (List Word) :=
  match encodeUntilRefused instructions with
  | (words, none) =>
      .ok words
  | (_, some cause) =>
      .error cause

end Instruction

end Rv64Codegen
