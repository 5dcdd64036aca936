import Rv64Codegen.Proofs.Relaxation.Growth
import Rv64Codegen.Proofs.Session.Changes

namespace Rv64Codegen

/-!
# What never goes back

Whatever a session is asked for, also where it refuses and where relaxation fails
halfway, its jumps climb from state to state, a target that has been found stays
found, and no descriptor shrinks.  A relaxation that succeeds adds to the code
exactly what its jumps have grown by.
-/

namespace Layout

/-- A later layout: jumps have climbed, kept their targets, and no descriptor is smaller. -/
structure Grows (before after : Layout) : Prop where
  jumps :
    ∀ (id : Nat) (jump : Jump),
      before.jumps[id]? = some jump →
        ∃ later,
          after.jumps[id]? = some later ∧ jump.Climbs later ∧
            ∀ target, jump.resolved = some target → later.resolved = some target
  descriptors :
    ∀ (index : Nat) (descriptor : Descriptor),
      before.descriptors[index]? = some descriptor →
        ∃ later, after.descriptors[index]? = some later ∧ descriptor.size ≤ later.size

namespace Grows

theorem of_eq
    {before after : Layout}
    (jumps : after.jumps = before.jumps)
    (descriptors : after.descriptors = before.descriptors) :
    before.Grows after where
  jumps := by
    intro id jump found
    rw [jumps]
    exact ⟨jump, found, .refl jump, fun _ isTarget => isTarget⟩
  descriptors := by
    intro index descriptor found
    rw [descriptors]
    exact ⟨descriptor, found, Nat.le_refl _⟩

theorem refl (layout : Layout) :
    layout.Grows layout :=
  of_eq rfl rfl

theorem trans
    {first second third : Layout}
    (early : first.Grows second)
    (late : second.Grows third) :
    first.Grows third where
  jumps := by
    intro id jump found
    obtain ⟨middle, foundMiddle, climbs, known⟩ := early.jumps id jump found
    obtain ⟨later, foundLater, climbsOn, stillKnown⟩ := late.jumps id middle foundMiddle
    exact ⟨later, foundLater, climbs.trans climbsOn,
      fun target isTarget => stillKnown target (known target isTarget)⟩
  descriptors := by
    intro index descriptor found
    obtain ⟨middle, foundMiddle, larger⟩ := early.descriptors index descriptor found
    obtain ⟨later, foundLater, evenLarger⟩ := late.descriptors index middle foundMiddle
    exact ⟨later, foundLater, Nat.le_trans larger evenLarger⟩

theorem push
    (layout : Layout)
    (descriptor : Descriptor) :
    layout.Grows (layout.push descriptor) where
  jumps := (refl layout).jumps
  descriptors := fun _ old found => ⟨old, getElem?_push_of_some descriptor found, Nat.le_refl _⟩

theorem pushJump
    (layout : Layout)
    (jump : Jump) :
    layout.Grows (layout.pushJump jump) where
  jumps := fun _ old found =>
    ⟨old, getElem?_push_of_some jump found, .refl old, fun _ isTarget => isTarget⟩
  descriptors := (refl layout).descriptors

theorem keepLong
    (layout : Layout)
    (index : Nat) :
    layout.Grows
      { layout with jumps := layout.jumps.modify index ({ · with keepLong := true }) } where
  jumps := by
    have marked :
        Pointwise
          (fun old new : Jump => new.state = old.state ∧ new.resolved = old.resolved)
          layout.jumps (layout.jumps.modify index ({ · with keepLong := true })) :=
      Pointwise.modify (fun _ => ⟨rfl, rfl⟩) _ _ fun _ _ => ⟨rfl, rfl⟩
    intro id jump found
    obtain ⟨later, foundLater, state, resolved⟩ := marked.forward id jump found
    exact ⟨later, foundLater, Jump.climbs_of_state_eq state,
      fun target isTarget => resolved.trans isTarget⟩
  descriptors := (refl layout).descriptors

/-- Relaxation lets a layout grow, also where it fails. -/
theorem relaxWithin
    (config : Config)
    (budget passes upgrades : Nat)
    (notices : Array Notice)
    (remaining : Nat)
    {layout : Layout}
    (wellFormed : layout.WellFormed) :
    layout.Grows
      (layout.relaxWithin config budget passes upgrades notices remaining).layout := by
  have climbs :=
    climbs_relaxWithin config budget passes upgrades notices remaining wellFormed
  obtain ⟨-, evolves⟩ :=
    Relaxation.wellFormed_relaxWithin config budget passes upgrades notices remaining wellFormed
  constructor
  · intro id jump found
    obtain ⟨later, foundLater, climbed⟩ := climbs.forward id jump found
    obtain ⟨again, foundAgain, evolved⟩ := evolves.jumps.forward id jump found
    rw [foundLater] at foundAgain
    cases foundAgain
    exact ⟨later, foundLater, climbed, evolved.resolved⟩
  · intro index descriptor found
    obtain ⟨later, foundLater, -, larger⟩ := evolves.descriptors.forward index descriptor found
    exact ⟨later, foundLater, larger⟩

end Grows

/-- Only a conditional branch is ever near. -/
theorem WellFormed.state_ne_near
    {layout : Layout}
    (wellFormed : layout.WellFormed)
    {jump : Jump}
    (member : jump ∈ layout.jumps)
    (unconditional : jump.isConditional = false) :
    jump.state ≠ .long .near := by
  obtain ⟨id, found⟩ := Array.mem_iff_getElem?.mp member
  have isForm := (wellFormed.holds id jump found).form
  intro isNear
  rw [Jump.forms, unconditional, Jump.form, isNear] at isForm
  exact absurd isForm (by decide)

end Layout

namespace Session

variable
  {terms : Terms}

/-- Every change lets the layout grow. -/
theorem Changes.grows
    {before after : Session}
    (changes : Changes terms before after)
    (wellFormed : before.layout.WellFormed) :
    before.layout.Grows after.layout := by
  induction changes with
  | refl =>
      exact Layout.Grows.of_eq rfl rfl
  | @tail middle after earlier change inductionHypothesis =>
      refine inductionHypothesis.trans ?_
      cases change with
      | operation operation =>
          exact Layout.Grows.push _ _
      | jump kind target =>
          exact (Layout.Grows.push _ _).trans (Layout.Grows.pushJump _ _)
      | keepLong id =>
          exact Layout.Grows.keepLong middle.layout id.index
      | relax =>
          exact Layout.Grows.relaxWithin _ _ 0 0 #[] _ (Changes.wellFormed earlier wellFormed)
      | _ =>
          exact Layout.Grows.of_eq rfl rfl

/--
Whatever commands come, refused ones and failing relaxations included, no state of
a jump goes down, only conditional branches are near, targets and bound labels stay
what they are, and no descriptor shrinks.  A relaxation that succeeds adds to the
code what its jumps have grown by, with offsets that still fit, counts the near and
the far ones, and leaves all that are kept long far.
-/
theorem jumps_only_climb
    (config : Config)
    (front back : List Command) :
    let before := ((start config).run front).layout
    let session := (start config).run (front ++ back)
    let after := session.layout
    (∀ (id : Nat) (jump : Jump),
      before.jumps[id]? = some jump →
        ∃ later,
          after.jumps[id]? = some later ∧ compare jump.state later.state ≠ .gt ∧
            ∀ target, jump.resolved = some target → later.resolved = some target) ∧
      (∀ jump ∈ after.jumps, jump.isConditional = false → jump.state ≠ .long .near) ∧
      (∀ label group,
        before.labelGroup? label = some group → after.labelGroup? label = some group) ∧
      (∀ (index : Nat) (descriptor : Descriptor),
        before.descriptors[index]? = some descriptor →
          ∃ later, after.descriptors[index]? = some later ∧ descriptor.size ≤ later.size) ∧
      ∀ stats,
        session.relax.1 = .ok stats →
          let relaxed := session.relax.2.layout
          relaxed.codeSize =
              after.codeSize +
                Jump.growthBetween after.jumps.toList relaxed.jumps.toList ∧
            relaxed.fits = true ∧
            stats.codeSize = relaxed.codeSize ∧
            stats.near = relaxed.jumps.countP (fun jump => jump.state = .long .near) ∧
            stats.far = relaxed.jumps.countP (fun jump => jump.state = .long .far) ∧
            ∀ jump ∈ relaxed.jumps, jump.keepLong = true → jump.state = .long .far := by
  intro before session after
  have changes := run_changes_any ((start config).run front) back
  rw [← run_append] at changes
  have startWellFormed := wellFormed_run config front
  have wellFormed : after.WellFormed := wellFormed_run config (front ++ back)
  have grows := Changes.grows changes startWellFormed
  refine ⟨grows.jumps, fun jump => wellFormed.state_ne_near,
    (Changes.keeps changes startWellFormed).labels, grows.descriptors, ?_⟩
  intro stats succeeds relaxed
  obtain ⟨settles, -, isStats⟩ := Layout.relaxWithin_eq_ok succeeds
  rw [isStats]
  exact ⟨settles.codeSize_eq wellFormed, settles.fits, rfl, rfl, rfl,
    settles.keepLong_far wellFormed⟩

/-- A kept branch that grows before relaxation fails at a jump whose label is not bound. -/
def failsBehindGrowth : List Command :=
  [.newLabel, .newLabel, .bindLabel ⟨0⟩, .branch .bne (.x 5) (.x 6) ⟨0⟩, .keepLong ⟨0⟩,
    .jump ⟨1⟩, .relax]

/-- The label is bound, the jump is kept long as well, and there is another branch. -/
def repaired : List Command :=
  [.newGroup, .keepLong ⟨1⟩, .branch .beq (.x 7) (.x 8) ⟨1⟩, .bindLabel ⟨1⟩]

/--
After the relaxation that failed, the first branch is far and the jump unseen.  The
next relaxation counts both as far, binds the second branch, and adds the four bytes
of the jump.
-/
theorem jumps_only_climb_failsBehindGrowth :
    let config : Config := {}
    let failed := (start config).run failsBehindGrowth
    let session := (start config).run (failsBehindGrowth ++ repaired)
    failed.layout.jumps.toList.map (·.state) = [.long .far, .shortUnbound] ∧
      ∃ stats,
        session.relax.1 = .ok stats ∧ stats.far = 2 ∧
          session.relax.2.layout.jumps.toList.map (·.state) =
            [.long .far, .long .far, .shortBound] ∧
          session.relax.2.layout.codeSize = session.layout.codeSize + 4 ∧
          session.relax.2.layout.codeSize =
            session.layout.codeSize +
              Jump.growthBetween session.layout.jumps.toList
                session.relax.2.layout.jumps.toList := by
  -- With the abbreviations unfolded on both sides, the terms agree as they stand.
  dsimp only
  have relaxes :
      ((start {}).run (failsBehindGrowth ++ repaired)).relax.1.map (·.far) = .ok 2 := by
    decide +kernel
  obtain ⟨stats, succeeds, far⟩ := map_eq_ok_iff.mp relaxes
  obtain ⟨-, -, -, -, accounts⟩ := jumps_only_climb {} failsBehindGrowth repaired
  obtain ⟨codeSize, -⟩ := accounts stats succeeds
  refine ⟨?_, stats, succeeds, far, ?_, ?_, codeSize⟩
  · decide +kernel
  · decide +kernel
  · decide +kernel

end Session

end Rv64Codegen
