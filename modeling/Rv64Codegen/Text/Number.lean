namespace Rv64Codegen.Text

/-!
# Number texts

Addresses, constants and words are written in lower-case hexadecimal after
`0x`; relative counts always carry a sign.
-/

/-- A natural number in lower-case hexadecimal, after `0x`. -/
def hex (value : Nat) : String :=
  "0x" ++ String.ofList (Nat.toDigits 16 value)

/-- A natural number in hexadecimal with at least the given number of digits. -/
def paddedHex
    (digits value : Nat) :
    String :=
  let written := Nat.toDigits 16 value
  "0x" ++ String.ofList (List.replicate (digits - written.length) '0' ++ written)

/-- The digit of a number below sixteen, in lower case. -/
def hexDigit (n : Nat) : Char :=
  if n < 10 then
    Char.ofNat (n + 48)
  else
    Char.ofNat (n + 87)

/-- The value of a hexadecimal digit, in either case. -/
def hexValue? (c : Char) : Option Nat :=
  if '0' ≤ c ∧ c ≤ '9' then
    some (c.toNat - 48)
  else if 'a' ≤ c ∧ c ≤ 'f' then
    some (c.toNat - 87)
  else if 'A' ≤ c ∧ c ≤ 'F' then
    some (c.toNat - 55)
  else
    none

/-- A 64-bit constant in hexadecimal; a negative one as its two's complement. -/
def constantHex (value : Int64) : String :=
  hex value.toUInt64.toNat

/-- An integer with its sign, also when it is not negative. -/
def signed (value : Int) : String :=
  if 0 ≤ value then
    "+" ++ toString value
  else
    toString value

end Rv64Codegen.Text
