import Rv64Codegen.Proofs.Relaxation.Choice
import Rv64Codegen.Proofs.Relaxation.FixedPoint
import Rv64Codegen.Proofs.Session.Changes

namespace Rv64Codegen

/-!
# Regular layouts

The groups, descriptors, jumps and labels of a layout repeat each other: offsets
are sums of sizes, sizes are those of forms, the jump list points into the
descriptors and the labels into the groups.  As long as no relaxation fails, all
of this agrees at every moment of a session, with every append starting from the
sizes that relaxation has left.
-/

namespace Layout

/-- The groups that are marked as targets are those that labels are bound to. -/
def Marked (layout : Layout) : Prop :=
  ∀ (index : Nat) (group : Group),
    layout.groups[index]? = some group →
      (group.isTarget = true ↔ ∃ label, layout.labelGroup? label = some ⟨index⟩)

theorem marked_empty : Layout.empty.Marked := by
  intro index group found
  obtain ⟨inside, -⟩ := Array.getElem?_eq_some_iff.mp found
  obtain rfl : index = 0 := Nat.lt_one_iff.mp inside
  cases found
  constructor
  · intro isTarget
    cases isTarget
  · rintro ⟨label, isBound⟩
    cases isBound

namespace Marked

variable
  {layout : Layout}

/-- Groups that keep their marks are marked as before when no label changes. -/
theorem congr
    (marked : layout.Marked)
    {after : Layout}
    (groups :
      Pointwise (fun old new : Group => new.isTarget = old.isTarget)
        layout.groups after.groups)
    (labels : ∀ label, after.labelGroup? label = layout.labelGroup? label) :
    after.Marked := by
  intro index group found
  obtain ⟨old, foundOld, sameMark⟩ := groups.backward found
  simp only [sameMark, labels]
  exact marked index old foundOld

theorem addLabel (marked : layout.Marked) :
    layout.addLabel.Marked :=
  marked.congr (Pointwise.refl (by intro; rfl) _) (labelGroup?_addLabel layout)

/-- A new group is not marked, and no label is bound to it yet. -/
theorem openGroup
    (marked : layout.Marked)
    (wellFormed : layout.WellFormed) :
    layout.openGroup.Marked := by
  obtain ⟨final, foundFinal⟩ := wellFormed.partitioned.exists_last
  rw [openGroup_eq foundFinal]
  intro index group found
  change (layout.groups.push _)[index]? = some group at found
  rw [Array.getElem?_push] at found
  split at found
  · rename_i isNew
    cases found
    constructor
    · intro isTarget
      cases isTarget
    · rintro ⟨label, isBound⟩
      have inside := wellFormed.bound label _ isBound
      exact absurd isNew (Nat.ne_of_lt inside)
  · exact marked index group found

/-- Binding a label marks its group. -/
theorem bindLabel
    (marked : layout.Marked)
    {label : LabelId}
    (unbound : layout.labels[label.index]? = some none)
    (target : GroupId) :
    (layout.bindLabel label target).Marked := by
  obtain ⟨labelInside, -⟩ := Array.getElem?_eq_some_iff.mp unbound
  intro index group found
  change (layout.groups.modify target.index _)[index]? = some group at found
  rw [Array.getElem?_modify] at found
  split at found
  · rename_i here
    obtain ⟨old, -, rfl⟩ := Option.map_eq_some_iff.mp found
    refine ⟨fun _ => ⟨label, ?_⟩, fun _ => rfl⟩
    rw [labelGroup?_bindLabel, if_pos ⟨rfl, labelInside⟩, ← here]
  · rename_i elsewhere
    rw [marked index group found]
    constructor
    · rintro ⟨other, isBound⟩
      exact ⟨other, labelGroup?_bindLabel_of_some unbound isBound⟩
    · rintro ⟨other, isBound⟩
      refine ⟨other, ?_⟩
      rw [labelGroup?_bindLabel] at isBound
      split at isBound
      · cases isBound
        exact absurd rfl elsewhere
      · exact isBound

/-- Groups keep their marks when a descriptor is appended. -/
theorem push
    (marked : layout.Marked)
    (descriptor : Descriptor) :
    (layout.push descriptor).Marked := by
  have kept :
      Pointwise (fun old new : Group => new.isTarget = old.isTarget)
        layout.groups
        (layout.groups.modify (layout.groups.size - 1) (Group.extend · descriptor.size)) :=
    Pointwise.modify (by intro; rfl) _ _ (by intros; rfl)
  exact marked.congr kept fun _ => rfl

/-- Relaxation touches neither marks nor labels. -/
theorem of_evolves
    (marked : layout.Marked)
    {after : Layout}
    (evolves : layout.Evolves after) :
    after.Marked := by
  refine marked.congr ⟨evolves.groups.size, ?_⟩ ?_
  · intro index old found
    obtain ⟨new, foundNew, -, -, sameMark⟩ := evolves.groups.forward index old found
    exact ⟨new, foundNew, sameMark⟩
  · intro label
    rw [labelGroup?, evolves.labels]
    rfl

end Marked

/-- All is well-formed and in place, targets are marked, and jumps are bound when seen. -/
structure Regular (layout : Layout) : Prop where
  wellFormed : layout.WellFormed
  located : layout.Located
  marked : layout.Marked
  unseen :
    ∀ (id : Nat) (jump : Jump),
      layout.jumps[id]? = some jump → jump.state = .shortUnbound → jump.resolved = none

theorem regular_empty : Layout.empty.Regular where
  wellFormed := wellFormed_empty
  located := located_empty
  marked := marked_empty
  unseen := by
    intro id jump found
    cases found

namespace Regular

variable
  {layout : Layout}

theorem addLabel (regular : layout.Regular) :
    layout.addLabel.Regular where
  wellFormed := regular.wellFormed.addLabel
  located := ⟨regular.located.groups, regular.located.jumps⟩
  marked := regular.marked.addLabel
  unseen := regular.unseen

theorem openGroup (regular : layout.Regular) :
    layout.openGroup.Regular where
  wellFormed := regular.wellFormed.openGroup
  located := regular.located.openGroup regular.wellFormed
  marked := regular.marked.openGroup regular.wellFormed
  unseen := regular.unseen

theorem bindLabel
    (regular : layout.Regular)
    {label : LabelId}
    {target : GroupId}
    (unbound : layout.labels[label.index]? = some none)
    (inside : target.index < layout.groups.size) :
    (layout.bindLabel label target).Regular where
  wellFormed := regular.wellFormed.bindLabel unbound inside
  located := regular.located.bindLabel regular.wellFormed label target
  marked := regular.marked.bindLabel unbound target
  unseen := regular.unseen

/-- An operation that is appended touches neither marks nor jumps. -/
theorem push_operation
    (regular : layout.Regular)
    {operation : Operation}
    (plain : ∀ id, operation ≠ .jump id) :
    (layout.push (Descriptor.ofOperation operation)).Regular where
  wellFormed := regular.wellFormed.push_operation plain
  located := regular.located.push regular.wellFormed _
  marked := regular.marked.push _
  unseen := regular.unseen

/-- A new jump has not been seen and has no known target. -/
theorem pushFresh
    (regular : layout.Regular)
    {kind : JumpKind}
    (sound : kind.Sound)
    (target : JumpTarget) :
    (layout.pushFresh kind target).Regular where
  wellFormed := regular.wellFormed.pushFresh sound target
  located := regular.located.pushFresh regular.wellFormed kind target
  marked := regular.marked.push _
  unseen := by
    intro id jump found isUnseen
    change (layout.jumps.push _)[id]? = some jump at found
    rw [Array.getElem?_push] at found
    split at found
    · cases found
      rfl
    · exact regular.unseen id jump found isUnseen

theorem keepLong
    (regular : layout.Regular)
    (id : Nat) :
    { layout with
      jumps := layout.jumps.modify id ({ · with keepLong := true }) }.Regular where
  wellFormed := regular.wellFormed.keepLong id
  located := regular.located.keepLong regular.wellFormed id
  marked := regular.marked
  unseen := by
    have same :
        Pointwise
          (fun old new : Jump => new.state = old.state ∧ new.resolved = old.resolved)
          layout.jumps (layout.jumps.modify id ({ · with keepLong := true })) :=
      Pointwise.modify (fun _ => ⟨rfl, rfl⟩) _ _ fun _ _ => ⟨rfl, rfl⟩
    intro other jump found isUnseen
    obtain ⟨old, foundOld, state, resolved⟩ := same.backward found
    rw [resolved]
    exact regular.unseen other old foundOld (state.symm.trans isUnseen)

end Regular

end Layout

/-!
## Relaxation
-/

namespace Relaxation

/-- A jump that has been bound has been seen. -/
theorem Sweep.state_of_visit
    {setting : Setting}
    {sweep : Sweep}
    {jump : Jump}
    {pending : List Jump}
    (wellFormed : (sweep.toLayout setting.labels (jump :: pending)).WellFormed)
    (unseen : jump.state = .shortUnbound → jump.resolved = none)
    (succeeds : (sweep.visit setting pending jump).failure = none) :
    (sweep.visit setting pending jump).jump.state ≠ .shortUnbound := by
  have entered := wellFormed_enter wellFormed jump.group
  have isNext := (sweep.enter jump.group).getElem?_toLayout_jumps setting.labels jump pending
  obtain ⟨own, found, -⟩ := (entered.holds _ jump isNext).owned
  obtain ⟨target, bound, form, binds, -, visited⟩ := visit_of_succeeds found succeeds
  have isSeen : bound.state ≠ .shortUnbound := by
    unfold bind at binds
    split at binds
    · rename_i resolved isResolved
      cases binds
      intro isUnseen
      have unresolved : (sweep.moved jump).resolved = none := unseen isUnseen
      rw [isResolved] at unresolved
      cases unresolved
    · split at binds
      · cases binds
      · cases binds
        intro isUnseen
        cases isUnseen
  rw [visited]
  show (bound.upgrade form).state ≠ _
  unfold Jump.upgrade
  split
  · exact isSeen
  · cases form with
    | short =>
        exact isSeen
    | near =>
        intro isUnseen
        cases isUnseen
    | far =>
        intro isUnseen
        cases isUnseen

end Relaxation

namespace Layout

namespace Regular

variable
  {config : Config}
  {layout settled : Layout}

/-- A pass that succeeds keeps a layout regular: it has seen every jump. -/
theorem runPass
    (regular : layout.Regular)
    {grown : Nat}
    (succeeds : (Relaxation.runPass config layout).result = .ok grown) :
    (Relaxation.runPass config layout).layout.Regular := by
  obtain ⟨wellFormed, evolves⟩ := Relaxation.wellFormed_runPass config regular.wellFormed
  have located := Relaxation.located_runPass regular.wellFormed regular.located succeeds
  have seen :
      ∀ jump ∈ (Relaxation.runPass config layout).layout.jumps, jump.state ≠ .shortUnbound := by
    refine Relaxation.forall_runPass regular.wellFormed regular.located ?_ succeeds
    intro sweep jump pending underway visited
    refine Relaxation.Sweep.state_of_visit underway.wellFormed ?_ visited
    have member : jump ∈ layout.jumps := Array.mem_toList_iff.mp (underway.rest.mem (by simp))
    obtain ⟨id, found⟩ := Array.mem_iff_getElem?.mp member
    exact regular.unseen id jump found
  refine ⟨wellFormed, located, regular.marked.of_evolves evolves, ?_⟩
  intro id jump found isUnseen
  exact absurd isUnseen (seen jump (Array.mem_of_getElem? found))

theorem settles
    (regular : layout.Regular)
    (settles : Settles config layout settled) :
    settled.Regular := by
  induction settles with
  | quiet pass =>
      exact regular.runPass pass
  | grown pass _ _ inductionHypothesis =>
      exact inductionHypothesis (regular.runPass pass)

end Regular

/-!
## What the parts of a regular layout say about each other
-/

/-- The groups, descriptors, jumps and labels of a layout agree. -/
structure Consistent (layout : Layout) : Prop where
  nonempty : 0 < layout.groups.size
  firstGroup :
    ∀ group : Group, layout.groups[0]? = some group → group.first = 0 ∧ group.offset = 0
  nextGroup :
    ∀ (index : Nat) (group following : Group),
      layout.groups[index]? = some group →
        layout.groups[index + 1]? = some following →
          following.first = group.last ∧ following.offset = group.offset + group.size
  lastGroup :
    ∀ group : Group,
      layout.groups[layout.groups.size - 1]? = some group →
        group.last = layout.descriptors.size
  groupSize :
    ∀ group ∈ layout.groups,
      group.size = sizeBetween layout.descriptors group.first group.last
  aligned : ∀ descriptor ∈ layout.descriptors, descriptor.size % 4 = 0
  described :
    ∀ (id : Nat) (jump : Jump),
      layout.jumps[id]? = some jump →
        layout.descriptors[jump.descriptor]? = some ⟨.jump ⟨id⟩, jump.size⟩
  listed :
    ∀ (index : Nat) (id : JumpId) (size : Nat),
      layout.descriptors[index]? = some ⟨.jump id, size⟩ →
        ∃ jump, layout.jumps[id.index]? = some jump ∧ jump.descriptor = index
  ordered :
    layout.jumps.toList.Pairwise fun early late => early.descriptor < late.descriptor
  inGroup :
    ∀ jump ∈ layout.jumps,
      ∃ own,
        layout.groups[jump.group.index]? = some own ∧
          own.first ≤ jump.descriptor ∧ jump.descriptor < own.last ∧
            jump.offset = sizeBetween layout.descriptors own.first jump.descriptor
  unresolved :
    ∀ jump ∈ layout.jumps, jump.resolved = none ↔ jump.state = .shortUnbound
  labelled :
    ∀ (label : LabelId) (target : GroupId),
      layout.labelGroup? label = some target →
        ∃ group, layout.groups[target.index]? = some group ∧ group.isTarget = true
  targets :
    ∀ (index : Nat) (group : Group),
      layout.groups[index]? = some group →
        group.isTarget = true → ∃ label, layout.labelGroup? label = some ⟨index⟩

theorem Regular.consistent
    {layout : Layout}
    (regular : layout.Regular) :
    layout.Consistent := by
  obtain ⟨wellFormed, located, marked, unseen⟩ := regular
  have partitioned := wellFormed.partitioned
  exact {
    nonempty := partitioned.nonempty
    firstGroup := by
      intro group found
      have first := partitioned.first group found
      refine ⟨first, ?_⟩
      rw [located.groups 0 group found, first, startOf_zero]
    nextGroup := by
      intro index group following found foundFollowing
      have first := partitioned.next index group following found foundFollowing
      refine ⟨first, ?_⟩
      rw [located.groups _ following foundFollowing, first]
      exact (partitioned.stop_eq located.groups found).symm
    lastGroup := partitioned.last
    groupSize := by
      intro group member
      obtain ⟨index, found⟩ := Array.mem_iff_getElem?.mp member
      exact partitioned.size index group found
    aligned := by
      intro descriptor member
      obtain ⟨index, found⟩ := Array.mem_iff_getElem?.mp member
      have aligned := wellFormed.sizeAt_mod_four index
      rw [sizeAt_of_getElem? found] at aligned
      exact aligned
    described := fun id jump found => (wellFormed.holds id jump found).described
    listed := wellFormed.listed
    ordered := wellFormed.pairwise
    inGroup := by
      intro jump member
      obtain ⟨id, found⟩ := Array.mem_iff_getElem?.mp member
      obtain ⟨own, foundOwn, lower, upper⟩ := (wellFormed.holds id jump found).owned
      refine ⟨own, foundOwn, lower, upper, ?_⟩
      have offset := located.jumps id jump own found foundOwn
      rw [located.groups _ own foundOwn,
        ← startOf_add_sizeBetween layout.descriptors lower] at offset
      exact Nat.add_left_cancel offset
    unresolved := by
      intro jump member
      obtain ⟨id, found⟩ := Array.mem_iff_getElem?.mp member
      exact ⟨(wellFormed.holds id jump found).fresh, unseen id jump found⟩
    labelled := by
      intro label target isBound
      have inside := wellFormed.bound label target isBound
      have found : layout.groups[target.index]? = some layout.groups[target.index] :=
        Array.getElem?_eq_getElem inside
      exact ⟨_, found, (marked target.index _ found).mpr ⟨label, isBound⟩⟩
    targets := fun index group found => (marked index group found).mp }

end Layout

namespace Session

variable
  {terms : Terms}
  {session : Session}

/-- Relaxation that succeeds ends at the fixed point and tells the size of the code there. -/
theorem settles_of_relax
    {stats : RelaxStats}
    (succeeds : session.relax.1 = .ok stats) :
    Layout.Settles session.config session.layout session.relax.2.layout ∧
      stats.codeSize = session.relax.2.layout.codeSize := by
  obtain ⟨settles, -, isStats⟩ := Layout.relaxWithin_eq_ok succeeds
  exact ⟨settles, congrArg RelaxStats.codeSize isStats⟩

/-- Every change keeps a layout regular, as long as relaxation succeeds. -/
theorem Changes.regular
    {before after : Session}
    (changes : Changes terms before after)
    (succeed : ∀ answer, terms.accepts answer → ∃ stats, answer = .ok stats)
    (regular : before.layout.Regular) :
    after.layout.Regular := by
  induction changes with
  | refl =>
      exact regular
  | tail _ change kept =>
      cases change with
      | addLabel =>
          exact kept.addLabel
      | openGroup =>
          exact kept.openGroup
      | bindLabel label unbound here =>
          refine kept.bindLabel unbound ?_
          have nonempty := kept.wellFormed.partitioned.nonempty
          show _ - 1 < _
          omega
      | setRegion region =>
          exact kept
      | setPool pool =>
          exact kept
      | operation operation approves room =>
          refine kept.push_operation ?_
          rintro id rfl
          exact approves.1
      | jump kind target sound room =>
          exact kept.pushFresh sound target
      | keepLong id =>
          exact kept.keepLong id.index
      | relax accepted =>
          obtain ⟨stats, succeeds⟩ := succeed _ accepted
          exact kept.settles (settles_of_relax succeeds).1

/-- Every change leaves a layout whose offsets fit, unless relaxation breaks. -/
theorem Changes.fits
    {before after : Session}
    (changes : Changes terms before after)
    (unbroken : ∀ answer, terms.accepts answer → answer ≠ .error .broken)
    (wellFormed : before.layout.WellFormed)
    (fits : before.layout.fits = true) :
    after.layout.fits = true := by
  induction changes with
  | refl =>
      exact fits
  | @tail middle after earlier change kept =>
      have middleWellFormed := Changes.wellFormed earlier wellFormed
      cases change with
      | openGroup =>
          exact (Layout.Stays.openGroup middleWellFormed).fits kept
      | bindLabel label =>
          exact (Layout.Stays.bindLabel _ label _).fits kept
      | operation operation approves room =>
          exact Layout.fits_push kept room.fits
      | jump kind target sound room =>
          exact Layout.fits_pushFresh kept room.fits kind target
      | keepLong id =>
          exact (Layout.Stays.keepLong middle.layout id.index).fits kept
      | relax accepted =>
          exact Layout.fits_relaxWithin kept (unbroken _ accepted)
      | _ =>
          exact kept

/-- Every change keeps the marks of targets right, whatever relaxation answers. -/
theorem Changes.marked
    {before after : Session}
    (changes : Changes terms before after)
    (wellFormed : before.layout.WellFormed)
    (marked : before.layout.Marked) :
    after.layout.Marked := by
  induction changes with
  | refl =>
      exact marked
  | @tail middle after earlier change kept =>
      have middleWellFormed := Changes.wellFormed earlier wellFormed
      cases change with
      | addLabel =>
          exact kept.addLabel
      | openGroup =>
          exact kept.openGroup middleWellFormed
      | bindLabel label unbound here =>
          exact kept.bindLabel unbound _
      | setRegion region =>
          exact kept
      | setPool pool =>
          exact kept
      | operation operation =>
          exact kept.push _
      | jump kind target =>
          exact kept.push _
      | keepLong id =>
          exact kept
      | relax accepted =>
          exact kept.of_evolves (evolves_relax middleWellFormed)

theorem marked_run
    (config : Config)
    (commands : List Command) :
    ((start config).run commands).layout.Marked :=
  (run_changes_any (start config) commands).marked Layout.wellFormed_empty
    Layout.marked_empty

theorem regular_run
    {config : Config}
    {commands : List Command}
    (relaxes :
      ∀ front back,
        commands = front ++ .relax :: back →
          ∃ stats, ((start config).run front).relax.1 = .ok stats) :
    ((start config).run commands).layout.Regular :=
  Changes.regular (run_changes_accepting relaxes) (fun _ succeeds => succeeds)
    Layout.regular_empty

/-- Offsets fit as long as no relaxation has broken. -/
theorem fits_run
    {config : Config}
    {commands : List Command}
    (unbroken :
      ∀ front back,
        commands = front ++ .relax :: back →
          ((start config).run front).relax.1 ≠ .error .broken) :
    ((start config).run commands).layout.fits = true :=
  Changes.fits (run_changes_accepting unbroken) (fun _ isUnbroken => isUnbroken)
    Layout.wellFormed_empty Layout.fits_empty

/--
After any commands, carried out or refused, in which no relaxation has failed, the
parts of the layout agree with each other, and all its offsets and sizes fit.
-/
theorem layout_consistent
    (config : Config)
    (commands : List Command)
    (relaxes :
      ∀ front back,
        commands = front ++ .relax :: back →
          ∃ stats, ((start config).run front).relax.1 = .ok stats) :
    ((start config).run commands).layout.Consistent ∧
      ((start config).run commands).layout.fits = true := by
  refine ⟨(regular_run relaxes).consistent, fits_run ?_⟩
  intro front back split isBroken
  obtain ⟨stats, succeeds⟩ := relaxes front back split
  cases succeeds.symm.trans isBroken

/-- A far branch over an empty group, relaxed in the middle and extended afterwards. -/
def extendedAfterGrowth : List Command :=
  [.newLabel, .newLabel, .branch .beq (.x 10) (.x 11) ⟨1⟩, .keepLong ⟨0⟩, .newGroup,
    .bindLabel ⟨0⟩, .newGroup, .jump ⟨0⟩, .bindLabel ⟨1⟩, .relax,
    .jump ⟨0⟩, .bindLabel ⟨1⟩, .loadConstant .zero 1]

theorem layout_consistent_extendedAfterGrowth :
    (∀ front back,
      extendedAfterGrowth = front ++ .relax :: back →
        ∃ stats, ((start {}).run front).relax.1 = .ok stats) ∧
      ((start {}).run extendedAfterGrowth).layout.Consistent ∧
        ((start {}).run extendedAfterGrowth).layout.fits = true ∧
          ((start {}).run extendedAfterGrowth).layout.codeSize = 20 := by
  have relaxes :
      ∀ front back,
        extendedAfterGrowth = front ++ .relax :: back →
          ∃ stats, ((start {}).run front).relax.1 = .ok stats :=
    relaxes_of_take (by decide +kernel)
  obtain ⟨consistent, fits⟩ := layout_consistent {} extendedAfterGrowth relaxes
  exact ⟨relaxes, consistent, fits, by decide +kernel⟩

end Session

end Rv64Codegen
