import Rv64Codegen.Json.Value
import Rv64Codegen.Text.Number

namespace Rv64Codegen.Json

/-!
# Writing JSON

Values are written without blanks.  Quotation marks, backslashes and control
characters are escaped, control characters by their short escape if they have
one; everything else stands for itself.
-/

/-- How a character is written inside a string. -/
def escapeChar (c : Char) : List Char :=
  match c with
  | '"' => ['\\', '"']
  | '\\' => ['\\', '\\']
  | '\n' => ['\\', 'n']
  | '\r' => ['\\', 'r']
  | '\t' => ['\\', 't']
  | '\x08' => ['\\', 'b']
  | '\x0c' => ['\\', 'f']
  | c =>
      if c.toNat < 0x20 then
        ['\\', 'u', '0', '0', Text.hexDigit (c.toNat / 16), Text.hexDigit (c.toNat % 16)]
      else
        [c]

/-- A string in quotation marks. -/
def quote (text : String) : List Char :=
  '"' :: text.toList.flatMap escapeChar ++ ['"']

mutual

/-- The characters of a value. -/
def render : Json → List Char
  | .null => ['n', 'u', 'l', 'l']
  | .bool true => ['t', 'r', 'u', 'e']
  | .bool false => ['f', 'a', 'l', 's', 'e']
  | .integer value => (toString value).toList
  | .fraction => ['0', '.', '0']
  | .string text => quote text
  | .unreadable => ['"', '\\', 'u', 'd', '8', '0', '0', '"']
  | .array items => '[' :: renderItems items
  | .object members => '{' :: renderMembers members

/-- The items of an array, with the bracket that closes it. -/
def renderItems : List Json → List Char
  | [] => [']']
  | [item] => render item ++ [']']
  | item :: rest => render item ++ ',' :: renderItems rest

/-- The members of an object, with the bracket that closes it. -/
def renderMembers : List (Option String × Json) → List Char
  | [] => ['}']
  | [member] => renderMember member ++ ['}']
  | member :: rest => renderMember member ++ ',' :: renderMembers rest

/-- One member of an object. -/
def renderMember : Option String × Json → List Char
  | (some name, value) => quote name ++ ':' :: render value
  | (none, value) => render .unreadable ++ ':' :: render value

end

/-- A value as text. -/
def text (value : Json) : String :=
  String.ofList value.render

end Rv64Codegen.Json
