import Rv64Codegen.Text.Number

namespace Rv64Codegen

/-!
# Relocations

A relocation asks whoever links the code to fill in the distance of a pair of
instructions that starts with `auipc`.
-/

/-- What the second instruction of a pair does with the address. -/
inductive RelocationKind where
  /-- `addi` adds the low part: the pair yields the address. -/
  | addi
  /-- `ld` loads from the address. -/
  | load
  /-- `jalr` calls the address. -/
  | call
  deriving Repr, DecidableEq

/-- A relocation kind as text. -/
def RelocationKind.text : RelocationKind → String
  | .addi => "pcrel-addi"
  | .load => "pcrel-load"
  | .call => "pcrel-call"

/-- What a relocation refers to. -/
inductive RelocationTarget where
  | symbol (name : String)
  | address (value : UInt64)
  deriving Repr, DecidableEq

/-- A relocation target as text. -/
def RelocationTarget.text : RelocationTarget → String
  | .symbol name => name
  | .address value => Text.hex value.toNat

/-- A pair of instructions that is left to be filled in. -/
structure Relocation where
  offset : Nat
  target : RelocationTarget
  kind : RelocationKind
  addend : Int64
  deriving Repr, DecidableEq

end Rv64Codegen
