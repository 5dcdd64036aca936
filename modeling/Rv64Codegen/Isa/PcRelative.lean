import Rv64Codegen.Isa.Instruction

namespace Rv64Codegen.PcRelative

/-!
# Distances split over two instructions

`auipc` adds the upper part of a distance to the program counter and the next
instruction adds the signed low 12 bits, so the upper part is rounded to the
nearest multiple of 4096.
-/

/-- The upper part of a distance, in units of 4096. -/
def upper (distance : Int) : Int :=
  (distance + 0x800) / 0x1000

/-- What the upper part leaves for the second instruction. -/
def lower (distance : Int) : Int :=
  distance - upper distance * 0x1000

/-- A distance whose upper part `auipc` can hold. -/
def Reachable (distance : Int) : Prop :=
  FitsSigned 20 (upper distance)

instance (distance : Int) : Decidable (Reachable distance) :=
  inferInstanceAs (Decidable (FitsSigned _ _))

/-- Both parts of a reachable distance. -/
def split (distance : Int) : Except EmissionError (Int × Int) :=
  if Reachable distance then
    .ok (upper distance, lower distance)
  else
    .error (.functionTooLarge distance)

/-- A jump over a distance that goes through a register. -/
def jumpThrough
    (link scratch : Register)
    (distance : Int) :
    Except EmissionError (List Instruction) := do
  let (high, low) ← split distance
  pure [.u .auipc scratch high, .i .jalr link scratch low]

end Rv64Codegen.PcRelative
