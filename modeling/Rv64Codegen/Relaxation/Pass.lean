import Rv64Codegen.Config
import Rv64Codegen.Notice
import Rv64Codegen.Relaxation.Measure

namespace Rv64Codegen.Relaxation

/-!
# One pass of relaxation

A pass visits the jumps in program order, finds out where each goes and moves it
to a longer form where the current one does not reach.  Growth moves later
groups and later jumps of the same group; a group is moved when the pass first
enters it or passes it by.  A pass that fails keeps what it has done.
-/

/-- What stays the same during a pass. -/
structure Setting where
  labels : Array (Option GroupId)
  reserve : Nat
  /-- Whether distances are checked at all. -/
  checksRange : Bool

/-- Where a pass has got to. -/
structure Sweep where
  groups : Array Group
  descriptors : Array Descriptor
  /-- The jumps visited so far, as they are now. -/
  visited : Array Jump
  /-- The bytes that visited jumps have grown by. -/
  growth : Nat
  /-- The part of the growth that lies in the current group. -/
  groupGrowth : Nat
  /-- The first group that has not been moved yet. -/
  nextGroup : Nat
  /-- The number of jumps that have grown. -/
  upgrades : Nat
  notices : Array Notice

/-- Move a number of groups up, from an index on. -/
def shiftGroups (bytes : Nat) : Nat → Nat → Array Group → Array Group
  | 0, _, groups =>
      groups
  | count + 1, index, groups =>
      shiftGroups bytes count (index + 1) (groups.modify index (Group.shift · bytes))

/-- The target of a jump, from the labels or counted within its group. -/
def resolve
    (labels : Array (Option GroupId))
    (own : Group)
    (jump : Jump) :
    Except EmissionError Resolved :=
  match jump.target with
  | .label label =>
      match labels[label.index]?.join with
      | some group =>
          .ok (.group group)
      | none =>
          .error (.unresolvedTarget label)
  | .relative count =>
      let index := jump.descriptor - own.first
      let position : Int := index + 1 + count
      if 0 ≤ position ∧ position ≤ own.count then
        .ok (.inGroup position.toNat)
      else
        .error (.relativeTargetOutOfGroup jump.group index count)

/-- A jump with its target, which is looked up the first time only. -/
def bind
    (labels : Array (Option GroupId))
    (own : Group)
    (jump : Jump) :
    Except EmissionError (Resolved × Jump) :=
  match jump.resolved with
  | some resolved =>
      .ok (resolved, jump)
  | none =>
      match resolve labels own jump with
      | .error cause =>
          .error cause
      | .ok resolved =>
          .ok (resolved, { jump with resolved := some resolved, state := .shortBound })

namespace Sweep

/-- A pass that has not visited any jump. -/
def begin (layout : Layout) : Sweep where
  groups := layout.groups
  descriptors := layout.descriptors
  visited := #[]
  growth := 0
  groupGrowth := 0
  nextGroup := 0
  upgrades := 0
  notices := #[]

/-- Enter the group of a jump; groups up to it take over the growth so far. -/
def enter (sweep : Sweep) (group : GroupId) : Sweep :=
  if sweep.nextGroup = group.index + 1 then
    sweep
  else
    { sweep with
      groups := shiftGroups sweep.growth (group.index + 1 - sweep.nextGroup)
        sweep.nextGroup sweep.groups
      nextGroup := group.index + 1
      groupGrowth := 0 }

/-- What a visit to a jump can see. -/
def view
    (sweep : Sweep)
    (setting : Setting)
    (pending : List Jump) :
    View where
  groups := sweep.groups
  descriptors := sweep.descriptors
  pending := pending
  growth := sweep.growth
  reserve := setting.reserve

/-- The form that a bound jump should have. -/
def decideForm
    (sweep : Sweep)
    (setting : Setting)
    (pending : List Jump)
    (own : Group)
    (jump : Jump)
    (resolved : Resolved) :
    Except Failure Form :=
  let wanted := if jump.keepLong then .far else jump.form
  if setting.checksRange then
    let view := sweep.view setting pending
    match view.aim? jump own resolved with
    | none =>
        .error .broken
    | some aim =>
        Failure.ofRefusal (chooseForm view jump own aim wanted)
  else
    .ok wanted

/-- Take the growth of a jump into account. -/
def grow
    (sweep : Sweep)
    (before after : Jump) :
    Sweep :=
  let bytes := after.size - before.size
  if bytes = 0 then
    sweep
  else
    { sweep with
      groups := sweep.groups.modify before.group.index (Group.grow · bytes)
      descriptors := sweep.descriptors.modify before.descriptor
        fun descriptor => { descriptor with size := descriptor.size + bytes }
      growth := sweep.growth + bytes
      groupGrowth := sweep.groupGrowth + bytes
      upgrades := sweep.upgrades + 1
      notices := sweep.notices.push
        (.jumpGrew sweep.visited.size before.group before.state after.state bytes) }

/-- A jump after a visit, the pass after it, and what went wrong, if anything. -/
structure Visit where
  jump : Jump
  sweep : Sweep
  failure : Option Failure

/-- Visit one jump. -/
def visit
    (sweep : Sweep)
    (setting : Setting)
    (pending : List Jump)
    (jump : Jump) :
    Visit :=
  let sweep := sweep.enter jump.group
  let moved := { jump with offset := jump.offset + sweep.groupGrowth }
  match sweep.groups[jump.group.index]? with
  | none =>
      ⟨moved, sweep, some .broken⟩
  | some own =>
      match bind setting.labels own moved with
      | .error cause =>
          ⟨moved, sweep, some (.refused cause)⟩
      | .ok (resolved, bound) =>
          match sweep.decideForm setting pending own bound resolved with
          | .error failure =>
              ⟨bound, sweep, some failure⟩
          | .ok form =>
              let grown := bound.upgrade form
              ⟨grown, sweep.grow bound grown, none⟩

/-- Add a visited jump. -/
def record (sweep : Sweep) (jump : Jump) : Sweep :=
  { sweep with visited := sweep.visited.push jump }

/-- Move the groups behind the last one that was entered. -/
def complete (sweep : Sweep) : Sweep :=
  { sweep with
    groups := shiftGroups sweep.growth (sweep.groups.size - sweep.nextGroup)
      sweep.nextGroup sweep.groups
    nextGroup := sweep.groups.size }

/--
Visit jumps in order.  After a failure the jumps that were not visited stand
behind the others as they were.
-/
def walk
    (setting : Setting) :
    List Jump → Sweep → Option Failure × Sweep
  | [], sweep =>
      (none, sweep.complete)
  | jump :: pending, sweep =>
      let visit := sweep.visit setting pending jump
      let sweep := visit.sweep.record visit.jump
      match visit.failure with
      | none =>
          walk setting pending sweep
      | some failure =>
          (some failure, { sweep with visited := sweep.visited ++ pending })

end Sweep

/-- The setting of a pass over a layout. -/
def Setting.of (config : Config) (layout : Layout) : Setting where
  labels := layout.labels
  reserve := config.branchGrowthReserve
  checksRange := decide (config.smallFunctionBytes < layout.codeSize)

/-- What a pass leaves behind. -/
structure PassRun where
  result : Except Failure Nat
  layout : Layout
  notices : Array Notice

/--
One pass over all jumps; the answer is the number of jumps that grew.  Offsets only
ever grow in a pass, so that none of its sums has been too large if all of them fit at
its end.
-/
def runPass (config : Config) (layout : Layout) : PassRun :=
  let (failure, sweep) :=
    Sweep.walk (.of config layout) layout.jumps.toList (.begin layout)
  let after : Layout := {
    layout with
    groups := sweep.groups
    descriptors := sweep.descriptors
    jumps := sweep.visited }
  { result := after.ifFits <|
      match failure with
      | none => .ok sweep.upgrades
      | some failure => .error failure
    layout := after
    notices := sweep.notices }

end Rv64Codegen.Relaxation
