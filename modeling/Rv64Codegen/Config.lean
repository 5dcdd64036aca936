import Rv64Codegen.Isa.Register

namespace Rv64Codegen

/-!
# Configuration

The limits and registers that a session works with.
-/

/-- How long the sequence of a constant may be. -/
structure ConstantLimits where
  /-- Longest sequence in code that can use the data pool instead. -/
  preferredMax : Nat := 5
  /-- Longest sequence in code that cannot. -/
  absoluteMax : Nat := 8
  /-- Span of changing bits from which on the shifted form is tried. -/
  srliMinSpan : Nat := 32
  deriving Repr, DecidableEq

/-- The settings of a session. -/
structure Config where
  /-- Limits on sequences. -/
  constants : ConstantLimits := {}
  /-- Bytes set aside for every short jump between a jump and its target. -/
  branchGrowthReserve : Nat := 8
  /-- Code up to this size is not checked for distances. -/
  smallFunctionBytes : Nat := 0xfff
  /-- Code may not be larger. -/
  maxCodeBytes : Nat := 16 * 1024 * 1024
  /-- Number of passes of relaxation; `none` leaves it to the number of jumps. -/
  maxRelaxPasses : Option Nat := none
  /-- Alignment of the data pool behind the code. -/
  poolAlign : Nat := 8
  /-- Register of far jumps that do not link. -/
  longJumpScratch : Register := .ra
  /-- Register that holds the address of a call. -/
  callScratch : Register := .t2
  /-- Register that holds the address of a floating-point pool load. -/
  reservedScratch : Register := .t6
  deriving Repr, DecidableEq

end Rv64Codegen
