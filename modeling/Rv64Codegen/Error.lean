import Rv64Codegen.Isa.Opcode
import Rv64Codegen.Program.Identifier
import Rv64Codegen.Text.Number

namespace Rv64Codegen

/-!
# Causes of refusal

Every request that this library turns down is turned down for one of the causes
below.  The wording of all messages is in `EmissionError.message`.
-/

/-- The part of an instruction word that a value was meant for. -/
inductive Field where
  | opcode
  | rd
  | funct3
  | rs1
  | rs2
  | funct7
  | imm12
  | imm13
  | imm20
  | imm21
  | shamt
  deriving Repr, DecidableEq

namespace Field

/-- How messages call a field. -/
def text : Field → String
  | .opcode => "opcode"
  | .rd => "rd"
  | .funct3 => "funct3"
  | .rs1 => "rs1"
  | .rs2 => "rs2"
  | .funct7 => "funct7"
  | .imm12 => "imm[11:0]"
  | .imm13 => "imm[12:1]"
  | .imm20 => "imm[31:12]"
  | .imm21 => "imm[20:1]"
  | .shamt => "shamt"

/-- The name of a field in structured data. -/
def name : Field → String
  | .opcode => "Opcode"
  | .rd => "Rd"
  | .funct3 => "Funct3"
  | .rs1 => "Rs1"
  | .rs2 => "Rs2"
  | .funct7 => "Funct7"
  | .imm12 => "Imm12"
  | .imm13 => "Imm13"
  | .imm20 => "Imm20"
  | .imm21 => "Imm21"
  | .shamt => "Shamt"

/-- Every field once. -/
def all : List Field :=
  [.opcode, .rd, .funct3, .rs1, .rs2, .funct7,
    .imm12, .imm13, .imm20, .imm21, .shamt]

end Field

/-- Why a request is refused. -/
inductive EmissionError where
  /-- A value needs more bits than its field has. -/
  | fieldOverflow (field : Field) (value : Int) (bits : Nat)
  /-- An offset has low bits that its field does not carry. -/
  | misaligned (field : Field) (value : Int) (align : Nat)
  /-- An opcode was used with the layout of another. -/
  | formatMismatch (op : Opcode) (expected actual : Format)
  /-- An operand is not one that the instruction takes. -/
  | invalidOperand (op : Opcode) (detail : String)
  /-- A label is used and never bound. -/
  | unresolvedTarget (label : LabelId)
  /-- A label is bound a second time. -/
  | duplicateLabel (label : LabelId) (group : GroupId)
  /-- A relative target lies outside the group of its jump. -/
  | relativeTargetOutOfGroup (group : GroupId) (index : Nat) (count : Int)
  /-- A constant is too long for code that cannot reach the data pool. -/
  | materializeOverflow (value : Int64) (count limit : Nat)
  /-- A distance is out of reach of the longest encoding. -/
  | functionTooLarge (offset : Int)
  /-- Relaxation used up its passes. -/
  | relaxationLimit (max : Nat)
  /-- A configured limit is passed. -/
  | resourceLimitExceeded (resource : String) (limit : Nat)
  /-- An alignment is not a power of two. -/
  | badAlignment (align : Nat)
  /-- A write leaves the reserved bytes of the data pool. -/
  | dataOutOfBounds (offset len : Nat)
  /-- The number of bytes produced is not the number announced. -/
  | sizeMismatch (expected actual : Nat)
  deriving Repr, DecidableEq

namespace EmissionError

/-- The name of a cause in structured data. -/
def name : EmissionError → String
  | .fieldOverflow .. => "FieldOverflow"
  | .misaligned .. => "Misaligned"
  | .formatMismatch .. => "FormatMismatch"
  | .invalidOperand .. => "InvalidOperand"
  | .unresolvedTarget .. => "UnresolvedTarget"
  | .duplicateLabel .. => "DuplicateLabel"
  | .relativeTargetOutOfGroup .. => "RelativeTargetOutOfGroup"
  | .materializeOverflow .. => "MaterializeOverflow"
  | .functionTooLarge .. => "FunctionTooLarge"
  | .relaxationLimit .. => "RelaxationLimit"
  | .resourceLimitExceeded .. => "ResourceLimitExceeded"
  | .badAlignment .. => "BadAlignment"
  | .dataOutOfBounds .. => "DataOutOfBounds"
  | .sizeMismatch .. => "SizeMismatch"

/-- The message that explains a cause. -/
def message : EmissionError → String
  | .fieldOverflow field value bits =>
      field.text ++ " value " ++ toString value ++
        " does not fit in " ++ toString bits ++ " bits"
  | .misaligned field value align =>
      field.text ++ " value " ++ toString value ++
        " is not a multiple of " ++ toString align
  | .formatMismatch op expected actual =>
      "'" ++ op.mnemonic ++ "' is a " ++ actual.text ++
        "-type instruction, not " ++ expected.text ++ "-type"
  | .invalidOperand op detail =>
      "invalid operand for '" ++ op.mnemonic ++ "': " ++ detail
  | .unresolvedTarget label =>
      "label " ++ label.text ++ " is referenced but never bound"
  | .duplicateLabel label group =>
      "label " ++ label.text ++ " is already bound to group " ++ group.text
  | .relativeTargetOutOfGroup group index count =>
      "relative target " ++ Text.signed count ++ " from instruction " ++
        toString index ++ " leaves group " ++ group.text
  | .materializeOverflow value count limit =>
      "constant " ++ Text.constantHex value ++ " needs " ++ toString count ++
        " instructions, prolog/epilog limit is " ++ toString limit
  | .functionTooLarge offset =>
      "method is too large: offset " ++ toString offset ++
        " exceeds the 32-bit PC-relative range"
  | .relaxationLimit max =>
      "branch relaxation did not converge within " ++ toString max ++ " passes"
  | .resourceLimitExceeded resource limit =>
      "resource limit exceeded: " ++ resource ++
        " (limit: " ++ toString limit ++ ")"
  | .badAlignment align =>
      "data alignment " ++ toString align ++ " is not a power of two"
  | .dataOutOfBounds offset len =>
      "data write of " ++ toString len ++ " bytes at pool offset " ++
        toString offset ++ " is out of bounds"
  | .sizeMismatch expected actual =>
      "descriptor declared " ++ toString expected ++ " bytes but " ++
        toString actual ++ " were written"

end EmissionError

/--
Why an operation gives no result: the request is refused for a stated cause, or
a bound that the library itself keeps is broken (a full buffer, an index with no
entry in its table, an offset that is no 32-bit number).
-/
inductive Failure where
  | refused (cause : EmissionError)
  | broken
  deriving Repr, DecidableEq

/-- Regard a refusal as a failure. -/
def Failure.ofRefusal
    (result : Except EmissionError α) :
    Except Failure α :=
  result.mapError Failure.refused

/-- Regard a missing entry as a broken bound. -/
def Failure.ofMissing : Option α → Except Failure α
  | some value =>
      .ok value
  | none =>
      .error .broken

end Rv64Codegen
