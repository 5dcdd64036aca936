import Rv64Codegen.Json.Codec

namespace Rv64Codegen

/-!
# Forms of values

A type with a form can be turned into a document and read from one, whatever codec
makes the documents.  A form says which fields and names a type has; how a record or a
choice is written, and what is accepted for one, is up to the codec.
-/

/-- A type whose values have a form in JSON. -/
class JsonForm (α : Type) where
  toJson (codec : Codec) : α → codec.Document
  ofJson? (codec : Codec) : codec.Document → Option α

export JsonForm (toJson ofJson?)

/-- A value as JSON text. -/
def Codec.write [JsonForm α] (codec : Codec) (value : α) : String :=
  codec.print (toJson codec value)

/-- The value that a JSON text stands for. -/
def Codec.read? (codec : Codec) (α : Type) [JsonForm α] (text : String) : Option α :=
  (codec.parse? text).bind (ofJson? codec)

/-- The form of a type whose values all have a name. -/
@[reducible] def JsonForm.ofNames
    (all : List α)
    (name : α → String) :
    JsonForm α where
  toJson codec value :=
    codec.plain (name value)
  ofJson? codec document :=
    (codec.plain? document).bind fun text =>
      all.find? fun candidate => name candidate == text

end Rv64Codegen
