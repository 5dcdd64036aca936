import Rv64Codegen.Isa.Bytes
import Rv64Codegen.Isa.Word
import Rv64Codegen.Program.Relocation
import Rv64Codegen.Relaxation.FixedPoint

namespace Rv64Codegen

/-!
# Finished code

The bytes of a finished function with everything that is known about them.
-/

/-- A finished function. -/
structure EmittedCode where
  /-- The bytes of the instructions. -/
  code : Array UInt8
  /-- The bytes of the data pool. -/
  data : Array UInt8
  /-- Where the data pool stands, counted from the start of the code. -/
  dataOffset : Nat
  /-- The pairs that are left to be filled in, in the order of the code. -/
  relocations : Array Relocation
  /-- The offset of every group. -/
  groupOffsets : Array Nat
  /-- The offset of every label, if it is bound. -/
  labelOffsets : Array (Option Nat)
  /-- The offsets at which some label is bound, in ascending order. -/
  targetOffsets : Array Nat
  /-- What relaxation did. -/
  stats : RelaxStats
  deriving Repr, DecidableEq

namespace EmittedCode

/-- Code and data in one piece: the code cut or padded with zeros to the data. -/
def image (emitted : EmittedCode) : Array UInt8 :=
  emitted.code.extract 0 emitted.dataOffset ++
    Array.replicate (emitted.dataOffset - emitted.code.size) 0 ++
    emitted.data

/-- The word at an offset of the code. -/
def wordAt? (emitted : EmittedCode) (offset : Nat) : Option Word :=
  (readBytes? emitted.code offset 4).map UInt32.ofNat

/-- The words of the code, in order. -/
def words (emitted : EmittedCode) : Array Word :=
  (Array.range (emitted.code.size / 4)).filterMap fun index =>
    emitted.wordAt? (4 * index)

/-- The offset of a label. -/
def labelOffset? (emitted : EmittedCode) (label : LabelId) : Option Nat :=
  emitted.labelOffsets[label.index]?.join

end EmittedCode

end Rv64Codegen
