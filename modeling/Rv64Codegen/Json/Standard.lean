import Rv64Codegen.Json.Codec
import Rv64Codegen.Json.Parser
import Rv64Codegen.Json.Printer

namespace Rv64Codegen

/-!
# The standard codec

Documents are JSON values.  Records are written as objects.  They are read from
objects, in which unknown members are skipped and no known member may occur twice, or
from arrays that hold all fields in order.  A choice is written as its name, or as an
object with its name and its content.
-/

namespace Json

/-- The values of the member with a name, in order. -/
def valuesOf
    (members : List (Option String × Json))
    (name : String) :
    List Json :=
  (members.filter fun member => member.1 == some name).map Prod.snd

/-- The value of a member that may be missing but not occur twice. -/
def memberOf?
    (members : List (Option String × Json))
    (name : String) :
    Option (Option Json) :=
  match valuesOf members name with
  | [] =>
      some none
  | [value] =>
      some (some value)
  | _ =>
      none

/-- The fields of a record in the given order; a missing field is `none`. -/
def fields? (names : List String) : Json → Option (List (Option Json))
  | .object members =>
      if members.all fun member => member.1.isSome then
        names.mapM (memberOf? members)
      else
        none
  | .array items =>
      if items.length = names.length then
        some (items.map some)
      else
        none
  | _ =>
      none

/-- The name of a choice, and its content if it is written with one. -/
def choice? : Json → Option (String × Option Json)
  | .string name =>
      some (name, none)
  | .object [(some name, content)] =>
      some (name, some content)
  | _ =>
      none

/-- An integer within bounds, the upper one excluded. -/
def intWithin? (low high : Int) : Json → Option Int
  | .integer value =>
      if low ≤ value ∧ value < high then
        some value
      else
        none
  | _ =>
      none

/-- A text. -/
def text? : Json → Option String
  | .string content =>
      some content
  | _ =>
      none

/-- A value other than null. -/
def present? : Json → Option Json
  | .null =>
      none
  | value =>
      some value

/-- The items of an array. -/
def items? : Json → Option (List Json)
  | .array items =>
      some items
  | _ =>
      none

end Json

/-- Documents are JSON values, and text is read in the whole JSON grammar. -/
def Codec.standard : Codec where
  Document := Json
  print := Json.text
  parse? := Json.parse?
  integer := .integer
  integer? := Json.intWithin?
  string := .string
  string? := Json.text?
  null := .null
  present? := Json.present?
  array := .array
  items? := Json.items?
  record := Json.record
  fields? := Json.fields?
  plain := .string
  tagged := Json.tagged
  choice? := Json.choice?

end Rv64Codegen
