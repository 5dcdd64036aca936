import Rv64Codegen.Isa.Opcode
import Rv64Codegen.Program.Identifier

namespace Rv64Codegen

/-!
# Jumps

A branch or jump whose distance is not known while the program is being written.
It starts in the shortest form and may only ever move to a longer one:

* `short`, one word;
* `near`, for conditional branches: the opposite branch over a `jal`;
* `far`: a jump through a register, behind the opposite branch for conditional
  branches.
-/

/-- The control transfer that a jump performs. -/
inductive JumpKind where
  | conditional (op : Opcode) (rs1 rs2 : Register)
  | jal (rd : Register)
  deriving Repr, DecidableEq

/-- Where a jump goes, as the front end wrote it. -/
inductive JumpTarget where
  /-- The start of the group that a label is bound to. -/
  | label (label : LabelId)
  /-- A number of descriptors from the one after the jump, in the same group. -/
  | relative (count : Int)
  deriving Repr, DecidableEq

/-- Where a jump goes once its target is known. -/
inductive Resolved where
  /-- The start of a group. -/
  | group (group : GroupId)
  /-- A place among the descriptors of the jump's own group; its length is its end. -/
  | inGroup (position : Nat)
  deriving Repr, DecidableEq

/-- The forms longer than one word. -/
inductive LongForm where
  | near
  | far
  deriving Repr, DecidableEq, Ord

/-- How far relaxation has taken a jump. -/
inductive JumpState where
  | shortUnbound
  | shortBound
  | long (form : LongForm)
  deriving Repr, DecidableEq, Ord

/-- A long form as text. -/
def LongForm.text : LongForm → String
  | .near => "Near"
  | .far => "Far"

/-- A jump state as text. -/
def JumpState.text : JumpState → String
  | .shortUnbound => "ShortUnbound"
  | .shortBound => "ShortBound"
  | .long form => "Long(" ++ form.text ++ ")"

/-- The encodings of a jump. -/
inductive Form where
  | short
  | near
  | far
  deriving Repr, DecidableEq

/-- The place of a form in the order from shortest to longest. -/
def Form.rank : Form → Nat
  | .short => 0
  | .near => 1
  | .far => 2

/-- A jump of a program, with its place and what is known about its target. -/
structure Jump where
  kind : JumpKind
  target : JumpTarget
  keepLong : Bool
  state : JumpState
  group : GroupId
  descriptor : Nat
  offset : Nat
  resolved : Option Resolved
  deriving Repr, DecidableEq

namespace Jump

/-- A jump that relaxation has not seen yet. -/
def fresh
    (kind : JumpKind)
    (target : JumpTarget)
    (group : GroupId)
    (descriptor offset : Nat) :
    Jump where
  kind := kind
  target := target
  keepLong := false
  state := .shortUnbound
  group := group
  descriptor := descriptor
  offset := offset
  resolved := none

/-- Whether the jump is a conditional branch. -/
def isConditional (jump : Jump) : Bool :=
  match jump.kind with
  | .conditional .. => true
  | .jal _ => false

/-- Whether the jump has left the short form. -/
def isLong (jump : Jump) : Bool :=
  match jump.state with
  | .long _ => true
  | _ => false

/-- The current form. -/
def form (jump : Jump) : Form :=
  match jump.state with
  | .shortUnbound => .short
  | .shortBound => .short
  | .long .near => .near
  | .long .far => .far

/-- The forms that a jump may take, shortest first. -/
def forms (jump : Jump) : List Form :=
  if jump.isConditional then
    [.short, .near, .far]
  else
    [.short, .far]

/-- The number of bytes of a form. -/
def sizeOf (jump : Jump) : Form → Nat
  | .short => 4
  | .near => 8
  | .far => if jump.isConditional then 12 else 8

/-- Where, inside a form, the word stands from which the distance is counted. -/
def anchor (jump : Jump) : Form → Nat
  | .short => 0
  | .near => if jump.isConditional then 4 else 0
  | .far => if jump.isConditional then 4 else 0

/-- The number of bytes of the current form. -/
def size (jump : Jump) : Nat :=
  jump.sizeOf jump.form

/-- Move to a longer form; a form that is not longer changes nothing. -/
def upgrade (jump : Jump) (form : Form) : Jump :=
  if form.rank ≤ jump.form.rank then
    jump
  else
    match form with
    | .short => jump
    | .near => { jump with state := .long .near }
    | .far => { jump with state := .long .far }

end Jump

end Rv64Codegen
