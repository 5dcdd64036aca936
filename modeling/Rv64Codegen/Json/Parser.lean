import Rv64Codegen.Json.Value
import Rv64Codegen.Text.Number

namespace Rv64Codegen.Json

/-!
# Reading JSON

A reader for the whole JSON grammar.  Every function takes the characters that
are left and gives what it has read together with the characters behind it.
-/

/-- The characters that may stand between any two signs. -/
def isBlank (c : Char) : Bool :=
  c == ' ' || c == '\n' || c == '\t' || c == '\r'

/-- The characters behind blanks. -/
def skipBlanks (text : List Char) : List Char :=
  text.dropWhile isBlank

/-- What a part of a string stands for: a character, or a numbered code unit. -/
inductive Piece where
  | char (c : Char)
  | unit (code : Nat)
  deriving Repr, DecidableEq

/-- The character of a short escape. -/
def shortEscape? : Char → Option Char
  | '"' => some '"'
  | '\\' => some '\\'
  | '/' => some '/'
  | 'b' => some '\x08'
  | 'f' => some '\x0c'
  | 'n' => some '\n'
  | 'r' => some '\r'
  | 't' => some '\t'
  | _ => none

/-- The code unit of four hexadecimal digits. -/
def unitValue? (a b c d : Char) : Option Nat := do
  let first ← Text.hexValue? a
  let second ← Text.hexValue? b
  let third ← Text.hexValue? c
  let fourth ← Text.hexValue? d
  pure (((first * 16 + second) * 16 + third) * 16 + fourth)

/-- The parts of a string behind its opening quotation mark. -/
def readPieces : List Char → Option (List Piece × List Char)
  | [] =>
      none
  | '"' :: rest =>
      some ([], rest)
  | '\\' :: 'u' :: a :: b :: c :: d :: rest => do
      let code ← unitValue? a b c d
      let (pieces, behind) ← readPieces rest
      pure (.unit code :: pieces, behind)
  | '\\' :: escaped :: rest => do
      let c ← shortEscape? escaped
      let (pieces, behind) ← readPieces rest
      pure (.char c :: pieces, behind)
  | c :: rest =>
      if c = '\\' ∨ c.toNat < 0x20 then
        none
      else do
        let (pieces, behind) ← readPieces rest
        pure (.char c :: pieces, behind)

/-- Whether a code unit is the first half of a pair. -/
def isLeading (code : Nat) : Bool :=
  decide (0xd800 ≤ code) && decide (code < 0xdc00)

/-- Whether a code unit is the second half of a pair. -/
def isTrailing (code : Nat) : Bool :=
  decide (0xdc00 ≤ code) && decide (code < 0xe000)

/-- The characters that parts of a string name; half a pair names none. -/
def decodePieces : List Piece → Option (List Char)
  | [] =>
      some []
  | .char c :: rest => do
      let behind ← decodePieces rest
      pure (c :: behind)
  | .unit first :: .unit second :: rest =>
      if isLeading first then
        if isTrailing second then do
          let behind ← decodePieces rest
          let code := 0x10000 + (first - 0xd800) * 0x400 + (second - 0xdc00)
          pure (Char.ofNat code :: behind)
        else
          none
      else if isTrailing first then
        none
      else do
        let behind ← decodePieces (.unit second :: rest)
        pure (Char.ofNat first :: behind)
  | .unit code :: rest =>
      if isLeading code || isTrailing code then
        none
      else do
        let behind ← decodePieces rest
        pure (Char.ofNat code :: behind)

/-- A string behind its opening quotation mark; `none` inside if it names no text. -/
def readString (text : List Char) : Option (Option String × List Char) := do
  let (pieces, behind) ← readPieces text
  pure ((decodePieces pieces).map String.ofList, behind)

/-- The number that decimal digits stand for. -/
def digitsValue (digits : List Char) : Nat :=
  digits.foldl (fun value digit => value * 10 + (digit.toNat - 48)) 0

/-- The digits before a point: a zero alone, or digits that do not start with zero. -/
def readWhole (text : List Char) : Option (List Char × List Char) :=
  match text with
  | '0' :: rest =>
      some (['0'], rest)
  | _ =>
      match text.takeWhile Char.isDigit with
      | [] =>
          none
      | digits =>
          some (digits, text.dropWhile Char.isDigit)

/-- At least one digit; the characters behind the digits. -/
def skipDigits (text : List Char) : Option (List Char) :=
  match text.takeWhile Char.isDigit with
  | [] =>
      none
  | _ =>
      some (text.dropWhile Char.isDigit)

/-- The characters behind a fraction, and whether there is one. -/
def skipFraction : List Char → Option (Bool × List Char)
  | '.' :: rest =>
      (skipDigits rest).map fun behind => (true, behind)
  | text =>
      some (false, text)

/-- The characters behind the sign of an exponent. -/
def skipSign : List Char → List Char
  | '+' :: rest => rest
  | '-' :: rest => rest
  | text => text

/-- The characters behind an exponent, and whether there is one. -/
def skipExponent : List Char → Option (Bool × List Char)
  | 'e' :: rest =>
      (skipDigits (skipSign rest)).map fun behind => (true, behind)
  | 'E' :: rest =>
      (skipDigits (skipSign rest)).map fun behind => (true, behind)
  | text =>
      some (false, text)

/-- A number behind its sign. -/
def readUnsigned
    (negative : Bool)
    (text : List Char) :
    Option (Json × List Char) := do
  let (digits, afterWhole) ← readWhole text
  let (hasFraction, afterFraction) ← skipFraction afterWhole
  let (hasExponent, behind) ← skipExponent afterFraction
  let value := digitsValue digits
  if hasFraction || hasExponent || (negative && value == 0) then
    pure (.fraction, behind)
  else if negative then
    pure (.integer (-value), behind)
  else
    pure (.integer value, behind)

/-- A number. -/
def readNumber : List Char → Option (Json × List Char)
  | '-' :: rest =>
      readUnsigned true rest
  | text =>
      readUnsigned false text

mutual

/-- A value behind blanks.  The first argument bounds the depth of the calls. -/
def readValue : Nat → List Char → Option (Json × List Char)
  | 0, _ =>
      none
  | depth + 1, text =>
      match skipBlanks text with
      | 'n' :: 'u' :: 'l' :: 'l' :: rest =>
          some (.null, rest)
      | 't' :: 'r' :: 'u' :: 'e' :: rest =>
          some (.bool true, rest)
      | 'f' :: 'a' :: 'l' :: 's' :: 'e' :: rest =>
          some (.bool false, rest)
      | '"' :: rest => do
          let (content, behind) ← readString rest
          match content with
          | some text =>
              pure (.string text, behind)
          | none =>
              pure (.unreadable, behind)
      | '[' :: rest =>
          match skipBlanks rest with
          | ']' :: behind =>
              some (.array [], behind)
          | items => do
              let (values, behind) ← readItems depth items
              pure (.array values, behind)
      | '{' :: rest =>
          match skipBlanks rest with
          | '}' :: behind =>
              some (.object [], behind)
          | members => do
              let (values, behind) ← readMembers depth members
              pure (.object values, behind)
      | other =>
          readNumber other

/-- The items of an array from the first one on, with the closing bracket. -/
def readItems : Nat → List Char → Option (List Json × List Char)
  | 0, _ =>
      none
  | depth + 1, text => do
      let (value, behind) ← readValue depth text
      match skipBlanks behind with
      | ']' :: rest =>
          pure ([value], rest)
      | ',' :: rest =>
          let (values, last) ← readItems depth rest
          pure (value :: values, last)
      | _ =>
          none

/-- The members of an object from the first one on, with the closing bracket. -/
def readMembers : Nat → List Char → Option (List (Option String × Json) × List Char)
  | 0, _ =>
      none
  | depth + 1, text => do
      let (member, behind) ← readMember depth text
      match skipBlanks behind with
      | '}' :: rest =>
          pure ([member], rest)
      | ',' :: rest =>
          let (members, last) ← readMembers depth rest
          pure (member :: members, last)
      | _ =>
          none

/-- One member of an object. -/
def readMember : Nat → List Char → Option ((Option String × Json) × List Char)
  | 0, _ =>
      none
  | depth + 1, text =>
      match skipBlanks text with
      | '"' :: rest => do
          let (name, behind) ← readString rest
          match skipBlanks behind with
          | ':' :: afterColon =>
              let (value, last) ← readValue depth afterColon
              pure ((name, value), last)
          | _ =>
              none
      | _ =>
          none

end

/-- Read a text that holds one value and blanks around it. -/
def parse? (text : String) : Option Json := do
  let characters := text.toList
  let (value, behind) ← readValue (3 * characters.length + 3) characters
  if (skipBlanks behind).isEmpty then
    pure value
  else
    none

end Rv64Codegen.Json
