namespace Rv64Codegen

/-!
# Bytes

Numbers are stored least significant byte first.
-/

/-- The number whose bytes are given, least significant first. -/
def littleEndian : List UInt8 → Nat
  | [] =>
      0
  | byte :: rest =>
      byte.toNat + 256 * littleEndian rest

/-- The given number of low bytes of a number, least significant first. -/
def littleEndianBytes : Nat → Nat → List UInt8
  | 0, _ =>
      []
  | count + 1, number =>
      UInt8.ofNat number :: littleEndianBytes count (number / 256)

/-- The number in `count` bytes from an address on. -/
def readBytes?
    (bytes : Array UInt8)
    (address count : Nat) :
    Option Nat :=
  if address + count ≤ bytes.size then
    some (littleEndian (bytes.extract address (address + count)).toList)
  else
    none

end Rv64Codegen
