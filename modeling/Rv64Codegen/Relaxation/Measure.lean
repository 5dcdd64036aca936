import Rv64Codegen.Isa.PcRelative
import Rv64Codegen.Program.Layout

namespace Rv64Codegen.Relaxation

/-!
# Measuring a jump

A pass of relaxation walks over the jumps in program order.  When it visits a
jump, everything in front of the jump is at its final place for this pass, and
what stands behind it is only known to move up by the growth so far.  A forward
distance is therefore judged with a margin: a reserve for every jump in between
that is still short.
-/

/-- What a pass knows while it visits a jump. -/
structure View where
  groups : Array Group
  descriptors : Array Descriptor
  /-- The jumps behind the visited one. -/
  pending : List Jump
  /-- The bytes that earlier jumps have grown by in this pass. -/
  growth : Nat
  /-- The bytes set aside for every short jump in between. -/
  reserve : Nat

/--
The offset of a target, and for a target behind the jump the index of the
descriptor there.
-/
structure Aim where
  offset : Nat
  windowEnd : Option Nat
  deriving Repr, DecidableEq

namespace View

/-- Where a target is, as far as the pass knows. -/
def aim?
    (view : View)
    (jump : Jump)
    (own : Group) :
    Resolved → Option Aim
  | .group target =>
      view.groups[target.index]?.map fun group =>
        if jump.group.index < target.index then
          ⟨group.offset + view.growth, some group.first⟩
        else
          ⟨group.offset, none⟩
  | .inGroup position =>
      let place := own.first + position
      some {
        offset := own.offset + Layout.sizeBetween view.descriptors own.first place
        windowEnd := if jump.descriptor < place then some place else none }

/-- The number of short jumps between the visited one and its target. -/
def shortJumpsBefore (view : View) (windowEnd : Nat) : Nat :=
  (view.pending.takeWhile fun jump => decide (jump.descriptor < windowEnd)).countP
    fun jump => !jump.isLong

/-- What is set aside for growth between the visited jump and its target. -/
def margin (view : View) (aim : Aim) : Nat :=
  match aim.windowEnd with
  | some windowEnd => view.reserve * view.shortJumpsBefore windowEnd
  | none => 0

end View

/--
The distance that a form has to cover, from the word that carries it.  Growing
to that form pushes a target behind the jump further away.
-/
def distance
    (jump : Jump)
    (own : Group)
    (aim : Aim)
    (form : Form) :
    Int :=
  let source : Int := own.offset + jump.offset + jump.anchor form
  let target : Int :=
    if aim.windowEnd.isSome then
      aim.offset + ((jump.sizeOf form : Int) - jump.size)
    else
      aim.offset
  target - source

/-- The range that a form of a jump covers, with a margin for the shorter ones. -/
def Reaches
    (jump : Jump)
    (form : Form)
    (distance : Int)
    (margin : Nat) :
    Prop :=
  match form with
  | .short =>
      FitsSigned (if jump.isConditional then 13 else 21) (distance + margin)
  | .near =>
      FitsSigned 21 (distance + margin)
  | .far =>
      PcRelative.Reachable distance

instance
    (jump : Jump)
    (distance : Int)
    (margin : Nat) :
    (form : Form) → Decidable (Reaches jump form distance margin)
  | .short =>
      inferInstanceAs (Decidable (FitsSigned _ _))
  | .near =>
      inferInstanceAs (Decidable (FitsSigned _ _))
  | .far =>
      inferInstanceAs (Decidable (PcRelative.Reachable _))

/-- The forms of a jump that are not shorter than the wanted one. -/
def candidates (jump : Jump) (wanted : Form) : List Form :=
  jump.forms.filter fun form => decide (wanted.rank ≤ form.rank)

/-- The shortest form, not shorter than the wanted one, that reaches the target. -/
def chooseForm
    (view : View)
    (jump : Jump)
    (own : Group)
    (aim : Aim)
    (wanted : Form) :
    Except EmissionError Form :=
  let reaching := (candidates jump wanted).find? fun form =>
    decide (Reaches jump form (distance jump own aim form) (view.margin aim))
  match reaching with
  | some form =>
      .ok form
  | none =>
      .error (.functionTooLarge
        (((candidates jump wanted).getLast?.map (distance jump own aim)).getD 0))

end Rv64Codegen.Relaxation
