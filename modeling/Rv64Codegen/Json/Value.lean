namespace Rv64Codegen

/-!
# JSON values

A JSON value as it is read from text or about to be written.  Only whole numbers
keep their value, since no form of this library uses any other.  A string whose
escapes name no text, such as half of a surrogate pair, can stand in a place
that nobody reads; it is kept apart from readable strings.
-/

/-- A JSON value. -/
inductive Json where
  | null
  | bool (value : Bool)
  /-- A number written without fraction and exponent, and not as minus zero. -/
  | integer (value : Int)
  /-- Any other number. -/
  | fraction
  | string (text : String)
  /-- A string that names no text. -/
  | unreadable
  | array (items : List Json)
  /-- The members in order; a name that is unreadable is `none`. -/
  | object (members : List (Option String × Json))

namespace Json

/-- An object whose names are all readable. -/
def record (members : List (String × Json)) : Json :=
  .object (members.map fun (name, value) => (some name, value))

/-- An object with one member. -/
def tagged (name : String) (value : Json) : Json :=
  record [(name, value)]

end Json

end Rv64Codegen
