import Rv64Codegen.Program.Descriptor

namespace Rv64Codegen

/-!
# Layouts

A layout holds the descriptors of a program in order, cut into groups.  Every
group is a contiguous run of descriptors with an offset and a size, and only the
last group receives new descriptors.  Labels are bound to the start of groups.

Offsets and sizes are 32-bit numbers.  A step that leads to a layout in which one of
them does not fit breaks.
-/

/-- The number of 32-bit numbers; all offsets and sizes are below. -/
def offsetRange : Nat :=
  0x100000000

/-- A contiguous run of descriptors. -/
structure Group where
  offset : Nat
  size : Nat
  first : Nat
  count : Nat
  isTarget : Bool
  deriving Repr, DecidableEq

namespace Group

/-- A group without descriptors. -/
def startingAt (offset first : Nat) : Group :=
  ⟨offset, 0, first, 0, false⟩

/-- The offset just behind a group. -/
def stop (group : Group) : Nat :=
  group.offset + group.size

/-- Whether the offset just behind a group fits, and with it the group's offset and size. -/
def fits (group : Group) : Bool :=
  decide (group.stop < offsetRange)

/-- The index just behind a group's descriptors. -/
def last (group : Group) : Nat :=
  group.first + group.count

/-- A group with one more descriptor. -/
def extend (group : Group) (size : Nat) : Group :=
  { group with
    size := group.size + size
    count := group.count + 1 }

/-- A group moved up by a number of bytes. -/
def shift (group : Group) (bytes : Nat) : Group :=
  { group with offset := group.offset + bytes }

/-- A group whose descriptors take more bytes than before. -/
def grow (group : Group) (bytes : Nat) : Group :=
  { group with size := group.size + bytes }

end Group

/-- The groups, descriptors, jumps and label bindings of a program. -/
structure Layout where
  groups : Array Group
  descriptors : Array Descriptor
  jumps : Array Jump
  labels : Array (Option GroupId)
  deriving Repr, DecidableEq

namespace Layout

/-- The layout with one empty group and nothing else. -/
def empty : Layout where
  groups := #[Group.startingAt 0 0]
  descriptors := #[]
  jumps := #[]
  labels := #[]

/-- The group that receives new descriptors. -/
def current (layout : Layout) : GroupId :=
  ⟨layout.groups.size - 1⟩

/-- The size of the code: the offset behind the last group. -/
def codeSize (layout : Layout) : Nat :=
  match layout.groups.back? with
  | some group => group.stop
  | none => 0

/-- The size that the current group has so far. -/
def currentSize (layout : Layout) : Nat :=
  match layout.groups.back? with
  | some group => group.size
  | none => 0

/-- The number of descriptors that the current group has so far. -/
def currentCount (layout : Layout) : Nat :=
  match layout.groups.back? with
  | some group => group.count
  | none => 0

/-- Close the current group and open an empty one behind it. -/
def openGroup (layout : Layout) : Layout :=
  let next :=
    match layout.groups.back? with
    | some group => Group.startingAt group.stop group.last
    | none => Group.startingAt 0 0
  { layout with groups := layout.groups.push next }

/-- Append a descriptor to the current group, whatever the offset behind it. -/
def push (layout : Layout) (descriptor : Descriptor) : Layout :=
  { layout with
    groups := layout.groups.modify (layout.groups.size - 1) (Group.extend · descriptor.size)
    descriptors := layout.descriptors.push descriptor }

/-- Whether the offsets and sizes of all groups and jumps fit. -/
def fits (layout : Layout) : Bool :=
  layout.groups.all Group.fits &&
    layout.jumps.all fun jump => decide (jump.offset < offsetRange)

/-- An answer that comes with a layout, and breaks if the offsets in it do not fit. -/
def ifFits (layout : Layout) (answer : Except Failure α) : Except Failure α :=
  if layout.fits then
    answer
  else
    .error .broken

/-- Append a jump to the jump list. -/
def pushJump (layout : Layout) (jump : Jump) : Layout :=
  { layout with jumps := layout.jumps.push jump }

/-- Create a label that is bound to nothing yet. -/
def addLabel (layout : Layout) : Layout :=
  { layout with labels := layout.labels.push none }

/-- Bind a label to a group. -/
def bindLabel
    (layout : Layout)
    (label : LabelId)
    (group : GroupId) :
    Layout :=
  { layout with
    groups := layout.groups.modify group.index ({ · with isTarget := true })
    labels := layout.labels.modify label.index fun _ => some group }

/-- The group that a label is bound to. -/
def labelGroup? (layout : Layout) (label : LabelId) : Option GroupId :=
  layout.labels[label.index]?.join

/-- The sizes of the descriptors from one index up to another, added up. -/
def sizeBetween
    (descriptors : Array Descriptor)
    (first last : Nat) :
    Nat :=
  (descriptors.extract first last).foldl (fun bytes descriptor => bytes + descriptor.size) 0

/-- The descriptors of a group. -/
def groupDescriptors
    (layout : Layout)
    (group : Group) :
    Array Descriptor :=
  layout.descriptors.extract group.first group.last

/-- Append the offsets of descriptors that follow each other from an offset on. -/
def appendOffsets
    (offsets : Array Nat)
    (start : Nat)
    (descriptors : Array Descriptor) :
    Array Nat :=
  (descriptors.foldl
    (fun (written, offset) descriptor =>
      (written.push offset, offset + descriptor.size))
    (offsets, start)).1

/-- The offset of every descriptor, counted from the offset of its group. -/
def descriptorOffsets (layout : Layout) : Array Nat :=
  layout.groups.foldl
    (fun offsets group =>
      appendOffsets offsets group.offset (layout.groupDescriptors group))
    #[]

end Layout

end Rv64Codegen
