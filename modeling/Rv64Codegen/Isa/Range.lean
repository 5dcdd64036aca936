import Rv64Codegen.Error

namespace Rv64Codegen

/-!
# Ranges of immediates

Which integers a field of a given width can carry, and the two directions
between an integer and its bit pattern.
-/

/-- A value that a two's complement number of the given width can hold. -/
def FitsSigned (bits : Nat) (value : Int) : Prop :=
  -(1 <<< (bits - 1) : Nat) ≤ value ∧ value < (1 <<< (bits - 1) : Nat)

instance (bits : Nat) (value : Int) : Decidable (FitsSigned bits value) :=
  inferInstanceAs (Decidable (_ ∧ _))

/-- A value that an unsigned number of the given width can hold. -/
def FitsUnsigned (bits : Nat) (value : Int) : Prop :=
  0 ≤ value ∧ value < (1 <<< bits : Nat)

instance (bits : Nat) (value : Int) : Decidable (FitsUnsigned bits value) :=
  inferInstanceAs (Decidable (_ ∧ _))

/-- The integer that the low bits of a pattern stand for in two's complement. -/
def signExtend (bits pattern : Nat) : Int :=
  let low := pattern % (1 <<< bits)
  if low < 1 <<< (bits - 1) then
    (low : Int)
  else
    (low : Int) - (1 <<< bits : Nat)

/--
The pattern of a signed value in a field, or the reason why it has none.  A
pattern has at most 32 bits.
-/
def signedPattern
    (field : Field)
    (bits : Nat)
    (value : Int) :
    Except EmissionError Nat :=
  if FitsSigned bits value then
    .ok (value % (1 <<< min bits 32 : Nat)).toNat
  else
    .error (.fieldOverflow field value bits)

/-- The pattern of an even signed value, whose lowest bit no word carries. -/
def evenPattern
    (field : Field)
    (bits : Nat)
    (value : Int) :
    Except EmissionError Nat :=
  if value % 2 = 0 then
    signedPattern field bits value
  else
    .error (.misaligned field value 2)

/-- A field value that the width of its field admits. -/
def checkedField
    (field : Field)
    (bits value : Nat) :
    Except EmissionError Nat :=
  if value < 1 <<< bits then
    .ok value
  else
    .error (.fieldOverflow field value bits)

end Rv64Codegen
