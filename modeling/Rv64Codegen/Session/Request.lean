import Rv64Codegen.Program.Descriptor

namespace Rv64Codegen

/-!
# Checks on requests

Before anything is appended, the operands of a request are checked: the layout
of the opcode, the register file of every operand, and that the instruction has
a word at all.
-/

/-- The operand width of a register move. -/
inductive MoveWidth where
  | w32
  | w64
  deriving Repr, DecidableEq

/-- What a call is directed at. -/
inductive CallTarget where
  | register (base : Register) (offset : Int)
  | relocated (target : RelocationTarget) (addend : Int64)
  | absolute (address : UInt64)
  deriving Repr, DecidableEq

/-- How messages call a register of a file. -/
def RegisterFile.description : RegisterFile → String
  | .int => "an integer"
  | .float => "a floating-point"

namespace Request

/-- An operand has to be in the register file that the opcode asks for. -/
def requireFile
    (op : Opcode)
    (slot : String)
    (register : Register)
    (file : RegisterFile) :
    Except EmissionError Unit :=
  if register.file = file then
    .ok ()
  else
    .error (.invalidOperand op
      (slot ++ " " ++ register.text ++ " must be " ++ file.description ++ " register"))

/-- An opcode has to have the layout of the request. -/
def requireFormat (op : Opcode) (format : Format) : Except EmissionError Unit :=
  if op.format = format then
    .ok ()
  else
    .error (.formatMismatch op format op.format)

/-- An instruction that has a word. -/
def encodable (instruction : Instruction) : Except EmissionError Operation := do
  let _ ← instruction.encode
  pure (.instruction instruction)

/-- A register-register instruction; a fixed second source is set to zero. -/
def register
    (op : Opcode)
    (rd rs1 rs2 : Register) :
    Except EmissionError Operation := do
  requireFormat op .r
  requireFile op "rd" rd op.operandFiles.rd
  requireFile op "rs1" rs1 op.operandFiles.rs1
  match op.fixedFields.fixedRs2 with
  | some _ =>
      encodable (.r op rd rs1 .zero)
  | none =>
      requireFile op "rs2" rs2 op.operandFiles.rs2
      encodable (.r op rd rs1 rs2)

/-- A register-immediate instruction. -/
def immediate
    (op : Opcode)
    (rd rs1 : Register)
    (imm : Int) :
    Except EmissionError Operation := do
  requireFormat op .i
  requireFile op "rd" rd op.operandFiles.rd
  requireFile op "rs1" rs1 op.operandFiles.rs1
  encodable (.i op rd rs1 imm)

/-- A shift by a constant. -/
def shift
    (op : Opcode)
    (rd rs1 : Register)
    (amount : Nat) :
    Except EmissionError Operation :=
  if op.shift?.isSome then
    immediate op rd rs1 amount
  else
    .error (.invalidOperand op "not a shift-immediate instruction")

/-- A store. -/
def store
    (op : Opcode)
    (rs2 rs1 : Register)
    (imm : Int) :
    Except EmissionError Operation := do
  requireFormat op .s
  requireFile op "rs1" rs1 op.operandFiles.rs1
  requireFile op "rs2" rs2 op.operandFiles.rs2
  encodable (.s op rs2 rs1 imm)

/-- An upper immediate. -/
def upper
    (op : Opcode)
    (rd : Register)
    (imm : Int) :
    Except EmissionError Operation := do
  requireFormat op .u
  requireFile op "rd" rd .int
  encodable (.u op rd imm)

/-- A move between registers, within a file or from one to the other. -/
def move
    (rd rs : Register)
    (width : MoveWidth) :
    Except EmissionError Operation :=
  match rd.file, rs.file, width with
  | .int, .int, .w64 => immediate .addi rd rs 0
  | .int, .int, .w32 => immediate .addiw rd rs 0
  | .float, .float, .w64 => register .fsgnjD rd rs rs
  | .float, .float, .w32 => register .fsgnjS rd rs rs
  | .int, .float, .w64 => register .fmvXD rd rs .zero
  | .int, .float, .w32 => register .fmvXW rd rs .zero
  | .float, .int, .w64 => register .fmvDX rd rs .zero
  | .float, .int, .w32 => register .fmvWX rd rs .zero

/-- A conditional branch, wherever it goes. -/
def branch
    (op : Opcode)
    (rs1 rs2 : Register) :
    Except EmissionError JumpKind := do
  requireFormat op .b
  requireFile op "rs1" rs1 .int
  requireFile op "rs2" rs2 .int
  let _ ← (Instruction.b op rs1 rs2 0).encode
  pure (.conditional op rs1 rs2)

/-- A jump that links, wherever it goes. -/
def jal (rd : Register) : Except EmissionError JumpKind := do
  requireFile .jal "rd" rd .int
  let _ ← (Instruction.j .jal rd 0).encode
  pure (.jal rd)

/-- The destination of a constant. -/
def constantDestination (rd : Register) : Except EmissionError Unit := do
  requireFile .addi "rd" rd .int
  if rd.isZero then
    throw (.invalidOperand .addi "cannot load a constant into zero")

/-- The destination of an address that is left to be filled in. -/
def relocatedAddress
    (rd : Register)
    (target : RelocationTarget)
    (kind : RelocationKind)
    (addend : Int64) :
    Except EmissionError Operation := do
  requireFile .auipc "rd" rd .int
  if rd.isZero then
    throw (.invalidOperand .auipc "address into zero")
  else if kind = .call then
    throw (.invalidOperand .auipc "call relocations are emitted by emit_call")
  else
    pure (.relocatedAddress rd target kind addend)

end Request

end Rv64Codegen
