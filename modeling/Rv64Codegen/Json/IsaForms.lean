import Rv64Codegen.Constant.Sequence
import Rv64Codegen.Json.Form

namespace Rv64Codegen

/-!
# JSON forms of registers, opcodes, steps and causes
-/

/-- The name of a register file in JSON. -/
def RegisterFile.name : RegisterFile → String
  | .int => "Int"
  | .float => "Float"

instance : JsonForm RegisterFile :=
  .ofNames [.int, .float] RegisterFile.name

instance : JsonForm Format :=
  .ofNames [.r, .i, .s, .b, .u, .j] Format.text

instance : JsonForm Opcode :=
  .ofNames Opcode.all Opcode.name

instance : JsonForm Field :=
  .ofNames Field.all Field.name

instance : JsonForm Register where
  toJson codec register :=
    codec.record [
      ("class", toJson codec register.file),
      ("num", codec.ofNat register.index)]
  ofJson? codec document := do
    match ← codec.fields? ["class", "num"] document with
    | [some file, some number] =>
        let file ← ofJson? codec file
        let number ← codec.natOfBits? 8 number
        pure ⟨file, UInt8.ofNat number⟩
    | _ =>
        none

instance : JsonForm GroupId where
  toJson codec group :=
    codec.ofNat group.index
  ofJson? codec document :=
    (codec.natOfBits? 32 document).map GroupId.mk

instance : JsonForm LabelId where
  toJson codec label :=
    codec.ofNat label.index
  ofJson? codec document :=
    (codec.natOfBits? 32 document).map LabelId.mk

instance : JsonForm Step where
  toJson codec step :=
    codec.record [
      ("op", toJson codec step.op),
      ("imm", codec.integer step.imm)]
  ofJson? codec document := do
    match ← codec.fields? ["op", "imm"] document with
    | [some op, some imm] =>
        let op ← ofJson? codec op
        let imm ← codec.intOfBits? 64 imm
        pure ⟨op, imm⟩
    | _ =>
        none

/-- The sequence that steps are pushed to one after the other, unless there are too many. -/
def Sequence.pushAll? (steps : List Step) : Option Sequence :=
  if 8 < steps.length then
    none
  else
    steps.foldlM push? empty

/-- A sequence is written as the list of its steps. -/
instance : JsonForm Sequence where
  toJson codec sequence :=
    codec.ofList (toJson codec) sequence.steps
  ofJson? codec document :=
    (codec.listOf? (ofJson? codec) document).bind Sequence.pushAll?

namespace EmissionError

/-- The content of a cause. -/
def content (codec : Codec) : EmissionError → List (String × codec.Document)
  | .fieldOverflow field value bits =>
      [("field", toJson codec field),
        ("value", codec.integer value),
        ("bits", codec.ofNat bits)]
  | .misaligned field value align =>
      [("field", toJson codec field),
        ("value", codec.integer value),
        ("align", codec.ofNat align)]
  | .formatMismatch op expected actual =>
      [("op", toJson codec op),
        ("expected", toJson codec expected),
        ("actual", toJson codec actual)]
  | .invalidOperand op detail =>
      [("op", toJson codec op), ("detail", codec.string detail)]
  | .unresolvedTarget label =>
      [("label", toJson codec label)]
  | .duplicateLabel label group =>
      [("label", toJson codec label), ("group", toJson codec group)]
  | .relativeTargetOutOfGroup group index count =>
      [("group", toJson codec group),
        ("index", codec.ofNat index),
        ("count", codec.integer count)]
  | .materializeOverflow value count limit =>
      [("value", codec.integer value.toInt),
        ("count", codec.ofNat count),
        ("limit", codec.ofNat limit)]
  | .functionTooLarge offset =>
      [("offset", codec.integer offset)]
  | .relaxationLimit max =>
      [("max", codec.ofNat max)]
  | .resourceLimitExceeded resource limit =>
      [("resource", codec.string resource), ("limit", codec.ofNat limit)]
  | .badAlignment align =>
      [("align", codec.ofNat align)]
  | .dataOutOfBounds offset len =>
      [("offset", codec.ofNat offset), ("len", codec.ofNat len)]
  | .sizeMismatch expected actual =>
      [("expected", codec.ofNat expected), ("actual", codec.ofNat actual)]

/-- Read a cause with one field. -/
def readOne?
    (codec : Codec)
    (document : codec.Document)
    (first : String)
    (build : codec.Document → Option EmissionError) :
    Option EmissionError := do
  match ← codec.fields? [first] document with
  | [some a] =>
      build a
  | _ =>
      none

/-- Read a cause with two fields. -/
def readTwo?
    (codec : Codec)
    (document : codec.Document)
    (first second : String)
    (build : codec.Document → codec.Document → Option EmissionError) :
    Option EmissionError := do
  match ← codec.fields? [first, second] document with
  | [some a, some b] =>
      build a b
  | _ =>
      none

/-- Read a cause with three fields. -/
def readThree?
    (codec : Codec)
    (document : codec.Document)
    (first second third : String)
    (build : codec.Document → codec.Document → codec.Document → Option EmissionError) :
    Option EmissionError := do
  match ← codec.fields? [first, second, third] document with
  | [some a, some b, some c] =>
      build a b c
  | _ =>
      none

/-- Read the content of the cause with a name. -/
def ofContent?
    (codec : Codec)
    (name : String)
    (content : codec.Document) :
    Option EmissionError :=
  match name with
  | "FieldOverflow" =>
      readThree? codec content "field" "value" "bits" fun field value bits => do
        pure (.fieldOverflow
          (← ofJson? codec field)
          (← codec.intOfBits? 64 value)
          (← codec.natOfBits? 32 bits))
  | "Misaligned" =>
      readThree? codec content "field" "value" "align" fun field value align => do
        pure (.misaligned
          (← ofJson? codec field)
          (← codec.intOfBits? 64 value)
          (← codec.natOfBits? 32 align))
  | "FormatMismatch" =>
      readThree? codec content "op" "expected" "actual" fun op expected actual => do
        pure (.formatMismatch
          (← ofJson? codec op)
          (← ofJson? codec expected)
          (← ofJson? codec actual))
  | "InvalidOperand" =>
      readTwo? codec content "op" "detail" fun op detail => do
        pure (.invalidOperand (← ofJson? codec op) (← codec.string? detail))
  | "UnresolvedTarget" =>
      readOne? codec content "label" fun label => do
        pure (.unresolvedTarget (← ofJson? codec label))
  | "DuplicateLabel" =>
      readTwo? codec content "label" "group" fun label group => do
        pure (.duplicateLabel (← ofJson? codec label) (← ofJson? codec group))
  | "RelativeTargetOutOfGroup" =>
      readThree? codec content "group" "index" "count" fun group index count => do
        pure (.relativeTargetOutOfGroup
          (← ofJson? codec group)
          (← codec.natOfBits? 64 index)
          (← codec.intOfBits? 32 count))
  | "MaterializeOverflow" =>
      readThree? codec content "value" "count" "limit" fun value count limit => do
        pure (.materializeOverflow
          (Int64.ofInt (← codec.intOfBits? 64 value))
          (← codec.natOfBits? 64 count)
          (← codec.natOfBits? 64 limit))
  | "FunctionTooLarge" =>
      readOne? codec content "offset" fun offset => do
        pure (.functionTooLarge (← codec.intOfBits? 64 offset))
  | "RelaxationLimit" =>
      readOne? codec content "max" fun max => do
        pure (.relaxationLimit (← codec.natOfBits? 64 max))
  | "ResourceLimitExceeded" =>
      readTwo? codec content "resource" "limit" fun resource limit => do
        pure (.resourceLimitExceeded (← codec.string? resource) (← codec.natOfBits? 64 limit))
  | "BadAlignment" =>
      readOne? codec content "align" fun align => do
        pure (.badAlignment (← codec.natOfBits? 32 align))
  | "DataOutOfBounds" =>
      readTwo? codec content "offset" "len" fun offset len => do
        pure (.dataOutOfBounds (← codec.natOfBits? 32 offset) (← codec.natOfBits? 64 len))
  | "SizeMismatch" =>
      readTwo? codec content "expected" "actual" fun expected actual => do
        pure (.sizeMismatch (← codec.natOfBits? 32 expected) (← codec.natOfBits? 32 actual))
  | _ =>
      none

end EmissionError

instance : JsonForm EmissionError where
  toJson codec cause :=
    codec.tagged cause.name (codec.record (cause.content codec))
  ofJson? codec document := do
    match ← codec.choice? document with
    | (name, some content) =>
        EmissionError.ofContent? codec name content
    | _ =>
        none

end Rv64Codegen
