import Rv64Codegen.Isa.Instruction

namespace Rv64Codegen

/-!
# Step sequences

A sequence of at most eight steps builds a 64-bit constant in one register.
The first step reads the zero register and every later step reads what the
steps before it left behind.  `Sequence.value` gives the constant as integer
arithmetic; `Sequence.instructions` gives the steps for a chosen register.
-/

/-- One step: an opcode and its immediate. -/
structure Step where
  op : Opcode
  imm : Int
  deriving Repr, DecidableEq

namespace Step

/--
What a step makes of the value before it.  Values wrap to 64-bit two's
complement, `lui` and `addiw` to the 32-bit range; an opcode that takes no part
in building constants leaves the value alone.
-/
def apply (value : Int) (step : Step) : Int :=
  match step.op with
  | .lui =>
      (step.imm * 0x1000).bmod 0x100000000
  | .addiw =>
      (value + step.imm).bmod 0x100000000
  | .addi =>
      (value + step.imm).bmod 0x10000000000000000
  | .slli =>
      (value <<< (step.imm % 64).toNat).bmod 0x10000000000000000
  | .srli =>
      ((value % 0x10000000000000000) >>> (step.imm % 64).toNat).bmod
        0x10000000000000000
  | _ =>
      value

/-- The instruction of a step from a source register to a destination. -/
def instruction
    (rd source : Register)
    (step : Step) :
    Instruction :=
  match step.op with
  | .lui =>
      .u .lui rd step.imm
  | op =>
      .i op rd source step.imm

/-- A step as text. -/
def text (step : Step) : String :=
  step.op.mnemonic ++ " " ++ toString step.imm

end Step

/-- The steps that build one constant, eight at most. -/
structure Sequence where
  steps : List Step
  length_le : steps.length ≤ 8 := by decide
  deriving Repr, DecidableEq

namespace Sequence

/-- The sequence without steps. -/
def empty : Sequence :=
  { steps := [] }

/-- A list of steps as a sequence, unless it is too long. -/
def ofSteps? (steps : List Step) : Option Sequence :=
  if fits : steps.length ≤ 8 then
    some ⟨steps, fits⟩
  else
    none

/-- Append one step; a sequence of eight steps has no room for it. -/
def push? (sequence : Sequence) (step : Step) : Option Sequence :=
  ofSteps? (sequence.steps ++ [step])

/-- The number of steps. -/
def length (sequence : Sequence) : Nat :=
  sequence.steps.length

/-- The number of bytes that the words of the steps take. -/
def byteSize (sequence : Sequence) : Nat :=
  sequence.length * 4

/-- The value that the steps leave behind. -/
def value (sequence : Sequence) : Int :=
  sequence.steps.foldl Step.apply 0

/-- The instructions of a sequence for a destination register. -/
def instructions
    (sequence : Sequence)
    (rd : Register) :
    List Instruction :=
  match sequence.steps with
  | [] =>
      []
  | first :: later =>
      first.instruction rd .zero :: later.map (Step.instruction rd rd)

/-- A sequence as text. -/
def text (sequence : Sequence) : String :=
  "[" ++ ", ".intercalate (sequence.steps.map Step.text) ++ "]"

end Sequence

end Rv64Codegen
