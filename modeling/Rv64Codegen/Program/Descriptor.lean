import Rv64Codegen.Constant.Sequence
import Rv64Codegen.Program.Jump
import Rv64Codegen.Program.Relocation

namespace Rv64Codegen

/-!
# Descriptors

A descriptor stands for the instructions of one front-end request until offsets
are known.  Its size is known from the start, and only jumps ever change theirs.
-/

/-- How a call reaches its callee. -/
inductive CallShape where
  /-- Through a register that holds the callee. -/
  | indirect (link base : Register) (offset : Int)
  /-- Through a pair that is left to be filled in. -/
  | relocated (link scratch : Register) (target : RelocationTarget) (addend : Int64)
  /-- Through an address that is built in a register. -/
  | absolute (link scratch : Register) (sequence : Sequence)
  /-- Through an address in the data pool. -/
  | pooled (link scratch : Register) (slot : Nat)
  deriving Repr, DecidableEq

/-- The number of bytes of a call. -/
def CallShape.size : CallShape → Nat
  | .indirect .. => 4
  | .relocated .. => 8
  | .absolute _ _ sequence => sequence.byteSize + 4
  | .pooled .. => 12

/-- What a descriptor stands for. -/
inductive Operation where
  /-- One instruction whose operands are all known. -/
  | instruction (instruction : Instruction)
  /-- A jump of the program's jump list. -/
  | jump (jump : JumpId)
  /-- A constant built in a register. -/
  | loadConstant (rd : Register) (sequence : Sequence)
  /-- A call. -/
  | call (shape : CallShape)
  /-- A load from the data pool, whose address is formed in `base`. -/
  | dataLoad (op : Opcode) (rd base : Register) (slot : Nat)
  /-- The address of a label. -/
  | labelAddress (rd : Register) (label : LabelId)
  /-- An address that is left to be filled in. -/
  | relocatedAddress
      (rd : Register) (target : RelocationTarget) (kind : RelocationKind) (addend : Int64)
  deriving Repr, DecidableEq

/-- The number of bytes that an operation takes at first. -/
def Operation.initialSize : Operation → Nat
  | .instruction _ => 4
  | .jump _ => 4
  | .loadConstant _ sequence => sequence.byteSize
  | .call shape => shape.size
  | .dataLoad .. => 8
  | .labelAddress .. => 8
  | .relocatedAddress .. => 8

/-- An operation with the number of bytes set aside for it. -/
structure Descriptor where
  operation : Operation
  size : Nat
  deriving Repr, DecidableEq

/-- An operation with its first size. -/
def Descriptor.ofOperation (operation : Operation) : Descriptor :=
  ⟨operation, operation.initialSize⟩

end Rv64Codegen
