namespace Rv64Codegen

/-!
# Identifiers

Groups, labels and jumps of a program are numbered in the order in which they
are created.  Each kind of number is a type of its own.
-/

/-- The number of a group, in program order. -/
structure GroupId where
  index : Nat
  deriving Repr, DecidableEq, Ord

/-- The number of a label, in order of creation. -/
structure LabelId where
  index : Nat
  deriving Repr, DecidableEq, Ord

/-- The number of a jump, in program order. -/
structure JumpId where
  index : Nat
  deriving Repr, DecidableEq, Ord

/-- A group is written as its number after the letter G. -/
def GroupId.text (group : GroupId) : String :=
  "G" ++ toString group.index

/-- A label is written as its number after the letter L. -/
def LabelId.text (label : LabelId) : String :=
  "L" ++ toString label.index

/-- A jump is written as its number after the letter J. -/
def JumpId.text (jump : JumpId) : String :=
  "J" ++ toString jump.index

end Rv64Codegen
