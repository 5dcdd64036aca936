import Rv64Codegen.Proofs.Relaxation.Margin
import Rv64Codegen.Proofs.Session.Regularity

namespace Rv64Codegen

/-!
# The least layout

Forms may be assigned to the jumps of a program in many ways.  An assignment fits
if every jump covers the distance to its target in the layout with the assigned
sizes.  Relaxation without a margin stays below every assignment that fits: as long
as no jump is longer than assigned, nothing that a pass measures is farther away
than in the assigned layout, so the assigned form would do and a longer one is not
chosen.  More commands only restrict the assignments.
-/

namespace Layout

/-- The descriptors of a program when every jump has the form that is assigned to it. -/
def assign
    (layout : Layout)
    (forms : Nat → Form) :
    Array Descriptor :=
  layout.descriptors.map fun descriptor =>
    match descriptor.operation with
    | .jump id =>
        match layout.jumps[id.index]? with
        | some jump => { descriptor with size := jump.sizeOf (forms id.index) }
        | none => descriptor
    | _ => descriptor

/-- The size of the code with the assigned forms. -/
def assignedSize
    (layout : Layout)
    (forms : Nat → Form) :
    Nat :=
  startOf (layout.assign forms) layout.descriptors.size

/-- The forms that the jumps of a layout have. -/
def formOf
    (layout : Layout)
    (id : Nat) :
    Form :=
  match layout.jumps[id]? with
  | some jump => jump.form
  | none => .short

/--
An assignment that fits: every jump has one of its forms, the far one if it is kept
long, and in the assigned layout the form covers the distance to the target.
-/
structure Fits
    (layout : Layout)
    (forms : Nat → Form) :
    Prop where
  member :
    ∀ (id : Nat) (jump : Jump), layout.jumps[id]? = some jump → forms id ∈ jump.forms
  keepLong :
    ∀ (id : Nat) (jump : Jump),
      layout.jumps[id]? = some jump → jump.keepLong = true → forms id = .far
  reaches :
    ∀ (id : Nat) (jump : Jump) (place : Nat),
      layout.jumps[id]? = some jump →
        layout.GoesTo jump place →
          Relaxation.Reaches jump (forms id)
            (spanTo (layout.assign forms) jump place (forms id)) 0

/-- No jump is longer than assigned. -/
def Below
    (layout : Layout)
    (forms : Nat → Form) :
    Prop :=
  ∀ (id : Nat) (jump : Jump),
    layout.jumps[id]? = some jump → jump.form.rank ≤ (forms id).rank

/-!
## Assigned sizes
-/

section Sizes

variable
  {layout : Layout}
  (forms : Nat → Form)

theorem sizeAt_assign_of_jump
    (wellFormed : layout.WellFormed)
    {id : Nat}
    {jump : Jump}
    (found : layout.jumps[id]? = some jump) :
    sizeAt (layout.assign forms) jump.descriptor = jump.sizeOf (forms id) := by
  rw [sizeAt, assign, Array.getElem?_map, (wellFormed.holds id jump found).described]
  simp [found]

theorem sizeAt_assign_of_plain
    {index : Nat}
    {descriptor : Descriptor}
    (found : layout.descriptors[index]? = some descriptor)
    (notJump : ∀ id, descriptor.operation ≠ .jump id) :
    sizeAt (layout.assign forms) index = descriptor.size := by
  rw [sizeAt, assign, Array.getElem?_map, found, Option.map_some]
  dsimp only
  split
  · rename_i id isJump
    exact absurd isJump (notJump id)
  · rfl

theorem sizeAt_assign_of_none
    {index : Nat}
    (outside : layout.descriptors[index]? = none) :
    sizeAt (layout.assign forms) index = 0 := by
  rw [sizeAt, assign, Array.getElem?_map, outside]
  rfl

/-- Every descriptor of a program keeps its assigned size. -/
theorem Keeps.sizeAt_assign
    {before after : Layout}
    (keeps : before.Keeps after)
    (wellFormed : before.WellFormed)
    (laterWellFormed : after.WellFormed)
    {index : Nat}
    (inside : index < before.descriptors.size) :
    sizeAt (after.assign forms) index = sizeAt (before.assign forms) index := by
  have found : before.descriptors[index]? = some before.descriptors[index] :=
    Array.getElem?_eq_getElem inside
  obtain ⟨later, foundLater, operation⟩ := keeps.descriptors index _ found
  rcases wellFormed.descriptor_cases found with
    ⟨id, jump, foundJump, rfl, -⟩ | ⟨notJump, isPlain⟩
  · obtain ⟨laterJump, foundLaterJump, persists⟩ := keeps.jumps id jump foundJump
    have laterSize := sizeAt_assign_of_jump forms laterWellFormed foundLaterJump
    rw [persists.descriptor] at laterSize
    rw [laterSize, sizeAt_assign_of_jump forms wellFormed foundJump,
      (Jump.forms_of_kind persists.kind).2]
  · rw [← operation] at notJump
    rw [sizeAt_assign_of_plain forms foundLater notJump,
      laterWellFormed.plain index later foundLater notJump, operation, ← isPlain]
    rw [operation] at notJump
    exact (sizeAt_assign_of_plain forms found notJump).symm

theorem Keeps.startOf_assign
    {before after : Layout}
    (keeps : before.Keeps after)
    (wellFormed : before.WellFormed)
    (laterWellFormed : after.WellFormed)
    {place : Nat}
    (inside : place ≤ before.descriptors.size) :
    startOf (after.assign forms) place = startOf (before.assign forms) place := by
  apply sizeBetween_congr
  intro index _ upper
  exact keeps.sizeAt_assign forms wellFormed laterWellFormed (Nat.lt_of_lt_of_le upper inside)

/-- Jumps that are not longer than assigned do not take more bytes. -/
theorem Below.sizeAt_le_assign
    {forms : Nat → Form}
    (below : layout.Below forms)
    (wellFormed : layout.WellFormed)
    (index : Nat) :
    sizeAt layout.descriptors index ≤ sizeAt (layout.assign forms) index := by
  cases found : layout.descriptors[index]? with
  | none =>
      rw [sizeAt_of_none found]
      exact Nat.zero_le _
  | some descriptor =>
      rw [sizeAt_of_getElem? found]
      rcases wellFormed.descriptor_cases found with
        ⟨id, jump, foundJump, rfl, rfl⟩ | ⟨notJump, -⟩
      · rw [sizeAt_assign_of_jump forms wellFormed foundJump]
        exact Jump.sizeOf_le_of_rank_le (wellFormed.holds id jump foundJump).form
          (below id jump foundJump)
      · rw [sizeAt_assign_of_plain forms found notJump]

/-- The forms that the jumps have are assigned the sizes that the descriptors have. -/
theorem WellFormed.sizeAt_assign_formOf
    (wellFormed : layout.WellFormed)
    (index : Nat) :
    sizeAt (layout.assign layout.formOf) index = sizeAt layout.descriptors index := by
  cases found : layout.descriptors[index]? with
  | none =>
      rw [sizeAt_of_none found, sizeAt_assign_of_none _ found]
  | some descriptor =>
      rw [sizeAt_of_getElem? found]
      rcases wellFormed.descriptor_cases found with
        ⟨id, jump, foundJump, rfl, rfl⟩ | ⟨notJump, -⟩
      · rw [sizeAt_assign_of_jump _ wellFormed foundJump, formOf, foundJump]
        rfl
      · rw [sizeAt_assign_of_plain _ found notJump]

end Sizes

/-!
## Distances in the assigned layout
-/

theorem WellFormed.le_size_of_goesTo
    {layout : Layout}
    (wellFormed : layout.WellFormed)
    {jump : Jump}
    {place : Nat}
    (goes : layout.GoesTo jump place) :
    place ≤ layout.descriptors.size := by
  have goesThere := goes
  obtain ⟨resolved, resolves, -⟩ := goes
  obtain ⟨other, aims, inside⟩ := wellFormed.exists_aims resolves
  rw [goesThere.unique ⟨resolved, resolves, aims⟩]
  exact inside

/-- An assignment that fits a program fits another one with the same jumps and distances. -/
theorem Fits.transfer
    {first second : Layout}
    {forms : Nat → Form}
    (fits : first.Fits forms)
    (wellFormed : second.WellFormed)
    (jumps :
      ∀ (id : Nat) (jump : Jump),
        second.jumps[id]? = some jump →
          ∃ other,
            first.jumps[id]? = some other ∧ other.kind = jump.kind ∧
              other.descriptor = jump.descriptor ∧
                (jump.keepLong = true → other.keepLong = true) ∧
                  ∀ place, second.GoesTo jump place → first.GoesTo other place)
    (starts :
      ∀ place, place ≤ second.descriptors.size →
        startOf (first.assign forms) place = startOf (second.assign forms) place) :
    second.Fits forms where
  member := by
    intro id jump found
    obtain ⟨other, foundOther, kind, -⟩ := jumps id jump found
    rw [← (Jump.forms_of_kind kind).1]
    exact fits.member id other foundOther
  keepLong := by
    intro id jump found isKept
    obtain ⟨other, foundOther, -, -, kept, -⟩ := jumps id jump found
    exact fits.keepLong id other foundOther (kept isKept)
  reaches := by
    intro id jump place found goes
    obtain ⟨other, foundOther, kind, descriptor, -, goesThere⟩ := jumps id jump found
    have reaches := fits.reaches id other place foundOther (goesThere place goes)
    obtain ⟨inside, -⟩ :=
      Array.getElem?_eq_some_iff.mp (wellFormed.holds id jump found).described
    unfold spanTo at reaches ⊢
    rw [Relaxation.reaches_of_kind kind, descriptor, Jump.anchor_of_kind kind,
      starts place (wellFormed.le_size_of_goesTo goes),
      starts jump.descriptor (Nat.le_of_lt inside)] at reaches
    exact reaches

/-- What fits a program fits every earlier state of it. -/
theorem Fits.of_keeps
    {before after : Layout}
    {forms : Nat → Form}
    (fits : after.Fits forms)
    (keeps : before.Keeps after)
    (wellFormed : before.WellFormed)
    (laterWellFormed : after.WellFormed) :
    before.Fits forms := by
  refine fits.transfer wellFormed ?_
    fun place inside => keeps.startOf_assign forms wellFormed laterWellFormed inside
  intro id jump found
  obtain ⟨later, foundLater, persists⟩ := keeps.jumps id jump found
  refine ⟨later, foundLater, persists.kind, persists.descriptor, persists.keepLong, ?_⟩
  intro place goes
  exact goes.mono persists.target persists.group persists.descriptor keeps.groups keeps.labels

/-- Relaxation does not change what fits. -/
theorem Fits.of_evolves
    {before after : Layout}
    {forms : Nat → Form}
    (fits : before.Fits forms)
    (evolves : before.Evolves after)
    (wellFormed : before.WellFormed)
    (laterWellFormed : after.WellFormed) :
    after.Fits forms := by
  refine fits.transfer laterWellFormed ?_ ?_
  · intro id jump found
    obtain ⟨old, foundOld, evolved⟩ := evolves.jumps.backward found
    refine ⟨old, foundOld, evolved.kind.symm, evolved.descriptor.symm,
      fun isKept => evolved.keepLong.symm.trans isKept, ?_⟩
    intro place goes
    exact (goesTo_iff_of_evolves evolves evolved place).mp goes
  · intro place inside
    rw [evolves.descriptors.size] at inside
    exact ((Keeps.of_evolves evolves).startOf_assign forms wellFormed laterWellFormed inside).symm

/-- With smaller sizes, a target is closer and on the same side. -/
theorem spanTo_between
    {small large : Array Descriptor}
    {jump : Jump}
    {form : Form}
    (sizes : ∀ index, sizeAt small index ≤ sizeAt large index)
    (here : sizeAt small jump.descriptor = jump.sizeOf form)
    (place : Nat) :
    (0 ≤ spanTo small jump place form ∧
        spanTo small jump place form ≤ spanTo large jump place form) ∨
      (spanTo large jump place form ≤ spanTo small jump place form ∧
        spanTo small jump place form ≤ 0) := by
  unfold spanTo
  by_cases forward : jump.descriptor < place
  · left
    have closer : sizeBetween small jump.descriptor place ≤
        sizeBetween large jump.descriptor place :=
      sizeBetween_le_of_sizeAt_le fun index _ => sizes index
    have behind : jump.sizeOf form ≤ sizeBetween small jump.descriptor place := by
      have longer : sizeBetween small jump.descriptor (jump.descriptor + 1) ≤
          sizeBetween small jump.descriptor place :=
        sizeBetween_mono small forward
      rw [sizeBetween_succ small (Nat.le_refl _), sizeBetween_self, Nat.zero_add, here] at longer
      exact longer
    obtain ⟨atLeast, -, anchor⟩ := jump.size_bounds form
    have smallSpan := startOf_add_sizeBetween small (Nat.le_of_lt forward)
    have largeSpan := startOf_add_sizeBetween large (Nat.le_of_lt forward)
    omega
  · right
    have backward := Nat.le_of_not_lt forward
    have closer : sizeBetween small place jump.descriptor ≤
        sizeBetween large place jump.descriptor :=
      sizeBetween_le_of_sizeAt_le fun index _ => sizes index
    have smallSpan := startOf_add_sizeBetween small backward
    have largeSpan := startOf_add_sizeBetween large backward
    omega

end Layout

/-- A form that covers a distance covers all distances on the way. -/
theorem Relaxation.reaches_of_between
    {jump : Jump}
    {form : Form}
    {distance closer : Int}
    (reaches : Reaches jump form distance 0)
    (between : (0 ≤ closer ∧ closer ≤ distance) ∨ (distance ≤ closer ∧ closer ≤ 0)) :
    Reaches jump form closer 0 := by
  have fits {bits : Nat} (fitsFarther : FitsSigned bits (distance + (0 : Nat))) :
      FitsSigned bits (closer + (0 : Nat)) := by
    obtain ⟨lower, upper⟩ := fitsFarther
    exact ⟨by omega, by omega⟩
  cases form with
  | short =>
      exact fits reaches
  | near =>
      exact fits reaches
  | far =>
      have bounds := PcRelative.reachable_iff.mp reaches
      exact PcRelative.reachable_iff.mpr ⟨by omega, by omega⟩

namespace Layout

/-- Below an assignment that fits, the assigned form covers what a visit measures. -/
theorem Fits.covers
    {layout : Layout}
    {forms : Nat → Form}
    (fits : layout.Fits forms)
    (wellFormed : layout.WellFormed)
    (below : layout.Below forms)
    {id : Nat}
    {jump : Jump}
    (found : layout.jumps[id]? = some jump)
    {place : Nat}
    (goes : layout.GoesTo jump place) :
    layout.Covers 0 jump place (forms id) := by
  have holds := wellFormed.holds id jump found
  obtain ⟨inside, -⟩ := Array.getElem?_eq_some_iff.mp holds.described
  have larger : jump.size ≤ jump.sizeOf (forms id) :=
    Jump.sizeOf_le_of_rank_le holds.form (below id jump found)
  have here :
      sizeAt (growAt layout.descriptors jump.descriptor (jump.sizeOf (forms id) - jump.size))
        jump.descriptor = jump.sizeOf (forms id) := by
    rw [sizeAt_growAt _ _ inside, if_pos rfl, sizeAt_of_getElem? holds.described]
    exact Nat.add_sub_cancel' larger
  have sizes (index : Nat) :
      sizeAt (growAt layout.descriptors jump.descriptor (jump.sizeOf (forms id) - jump.size))
        index ≤ sizeAt (layout.assign forms) index := by
    by_cases isHere : index = jump.descriptor
    · rw [isHere, here, sizeAt_assign_of_jump forms wellFormed found]
    · rw [sizeAt_growAt _ _ inside, if_neg isHere]
      exact below.sizeAt_le_assign wellFormed index
  unfold Covers
  rw [Nat.zero_mul]
  exact Relaxation.reaches_of_between (fits.reaches id jump place found goes)
    (spanTo_between sizes here place)

/-!
## Passes
-/

/-- A visit without a margin gives its jump no longer form than an assignment that fits. -/
theorem Fits.rank_visit_le
    {config : Config}
    {layout : Layout}
    {forms : Nat → Form}
    (fits : layout.Fits forms)
    (wellFormed : layout.WellFormed)
    (noReserve : config.branchGrowthReserve = 0)
    {sweep : Relaxation.Sweep}
    {jump : Jump}
    {pending : List Jump}
    (underway : sweep.Underway layout (jump :: pending))
    (below : (sweep.toLayout layout.labels (jump :: pending)).Below forms)
    (visited : (sweep.visit (.of config layout) pending jump).failure = none) :
    (sweep.visit (.of config layout) pending jump).jump.form.rank ≤
      (forms sweep.visited.size).rank := by
  have isNext := sweep.getElem?_toLayout_jumps layout.labels jump pending
  have stillFits := fits.of_evolves underway.evolves wellFormed underway.wellFormed
  obtain ⟨place, goes, -, least⟩ := underway.visit_decides visited
  refine least _ ⟨stillFits.member _ jump isNext, ?_, fun _ => ?_⟩
  · unfold Jump.wanted
    split
    · rename_i isKept
      rw [stillFits.keepLong _ jump isNext isKept]
    · exact below _ jump isNext
  · rw [noReserve]
    exact stillFits.covers underway.wellFormed below isNext goes

/-- A pass without a margin stays below an assignment that fits. -/
theorem Below.runPass
    {config : Config}
    {layout : Layout}
    {forms : Nat → Form}
    (below : layout.Below forms)
    (regular : layout.Regular)
    (noReserve : config.branchGrowthReserve = 0)
    (fits : layout.Fits forms)
    {grown : Nat}
    (succeeds : (Relaxation.runPass config layout).result = .ok grown) :
    (Relaxation.runPass config layout).layout.Below forms := by
  have step (sweep : Relaxation.Sweep) (jump : Jump) (pending : List Jump)
      (underway : sweep.Underway layout (jump :: pending))
      (stillBelow : (sweep.toLayout layout.labels (jump :: pending)).Below forms)
      (visited : (sweep.visit (.of config layout) pending jump).failure = none) :
      let visit := sweep.visit (.of config layout) pending jump
      ((visit.sweep.record visit.jump).toLayout layout.labels pending).Below forms := by
    intro visit id other found
    rw [underway.jumps_visit config, Array.getElem?_setIfInBounds] at found
    split at found
    · rename_i here
      split at found
      · cases found
        rw [← here]
        exact fits.rank_visit_le regular.wellFormed noReserve underway stillBelow visited
      · cases found
    · exact stillBelow id other found
  obtain ⟨final, underway, finallyBelow, -, after⟩ :=
    Relaxation.runPass_induction regular.wellFormed regular.located
      (motive := fun sweep pending => (sweep.toLayout layout.labels pending).Below forms)
      (by
        rw [Relaxation.Sweep.toLayout_begin]
        exact below)
      step succeeds
  obtain ⟨-, -, -, -, jumps, -⟩ := underway.complete
  unfold Below at finallyBelow ⊢
  rw [Relaxation.Sweep.toLayout_nil_jumps] at finallyBelow
  rw [after, jumps]
  exact finallyBelow

theorem Below.settles
    {config : Config}
    {layout settled : Layout}
    {forms : Nat → Form}
    (below : layout.Below forms)
    (regular : layout.Regular)
    (noReserve : config.branchGrowthReserve = 0)
    (fits : layout.Fits forms)
    (settles : Settles config layout settled) :
    settled.Below forms := by
  induction settles with
  | quiet pass =>
      exact below.runPass regular noReserve fits pass
  | grown pass _ _ inductionHypothesis =>
      obtain ⟨laterWellFormed, evolves⟩ :=
        Relaxation.wellFormed_runPass config regular.wellFormed
      exact inductionHypothesis (below.runPass regular noReserve fits pass)
        (regular.runPass pass) (fits.of_evolves evolves regular.wellFormed laterWellFormed)

/-- The forms of a layout are below every assignment that fits. -/
def Least (layout : Layout) : Prop :=
  ∀ forms, layout.Fits forms → layout.Below forms

/-- Nothing but relaxation makes jumps longer. -/
theorem Least.of_keeps
    {before after : Layout}
    (least : before.Least)
    (keeps : before.Keeps after)
    (wellFormed : before.WellFormed)
    (laterWellFormed : after.WellFormed)
    (jumps :
      ∀ (id : Nat) (jump : Jump),
        after.jumps[id]? = some jump →
          jump.form = .short ∨
            ∃ old, before.jumps[id]? = some old ∧ jump.form = old.form) :
    after.Least := by
  intro forms fits id jump found
  rcases jumps id jump found with isShort | ⟨old, foundOld, sameForm⟩
  · rw [isShort]
    exact Nat.zero_le _
  · rw [sameForm]
    exact least forms (fits.of_keeps keeps wellFormed laterWellFormed) id old foundOld

/-!
## The fixed point
-/

section FixedPoint

variable
  {config : Config}
  {layout settled : Layout}

/-- At the fixed point every jump that is kept long is far. -/
theorem Settles.wanted_eq_form
    (settles : Settles config layout settled)
    (regular : layout.Regular) :
    ∀ jump ∈ settled.jumps, jump.wanted = jump.form := by
  induction settles with
  | quiet pass =>
      exact Relaxation.wanted_eq_form_of_runPass regular.wellFormed regular.located pass
  | grown pass _ _ inductionHypothesis =>
      exact inductionHypothesis (regular.runPass pass)

/-- At the fixed point every jump goes to a place, and its form covers the distance. -/
theorem Settles.exists_goesTo
    (settles : Settles config layout settled)
    (small : config.smallFunctionBytes ≤ 0xfff)
    (regular : layout.Regular)
    {id : Nat}
    {jump : Jump}
    (found : settled.jumps[id]? = some jump) :
    ∃ place,
      settled.GoesTo jump place ∧
        Relaxation.Reaches jump jump.form
          (spanTo settled.descriptors jump place jump.form) 0 := by
  obtain ⟨-, reached⟩ := settles.reached small regular.wellFormed regular.located
  obtain ⟨resolved, place, isResolved, aims, -, reaches⟩ := reached id jump found
  have resolves :=
    ((settles.evolves regular.wellFormed).1.holds id jump found).resolved resolved isResolved
  exact ⟨place, ⟨resolved, resolves, aims⟩, reaches⟩

/-- The forms at the fixed point fit. -/
theorem Settles.fits_formOf
    (settles : Settles config layout settled)
    (small : config.smallFunctionBytes ≤ 0xfff)
    (regular : layout.Regular) :
    settled.Fits settled.formOf := by
  obtain ⟨wellFormed, -⟩ := settles.evolves regular.wellFormed
  have isForm {id : Nat} {jump : Jump} (found : settled.jumps[id]? = some jump) :
      settled.formOf id = jump.form := by
    rw [formOf, found]
  have sameStarts (place : Nat) :
      startOf (settled.assign settled.formOf) place = startOf settled.descriptors place :=
    sizeBetween_congr fun index _ _ => wellFormed.sizeAt_assign_formOf index
  refine ⟨?_, ?_, ?_⟩
  · intro id jump found
    rw [isForm found]
    exact (wellFormed.holds id jump found).form
  · intro id jump found isKept
    rw [isForm found, ← settles.wanted_eq_form regular jump (Array.mem_of_getElem? found)]
    unfold Jump.wanted
    rw [if_pos isKept]
  · intro id jump place found goes
    obtain ⟨other, goesOther, reaches⟩ := settles.exists_goesTo small regular found
    obtain rfl := goes.unique goesOther
    unfold spanTo at reaches ⊢
    rw [isForm found, sameStarts, sameStarts]
    exact reaches

/-- The assigned size is the same before and after relaxation. -/
theorem Settles.assignedSize_eq
    (settles : Settles config layout settled)
    (wellFormed : layout.WellFormed)
    (forms : Nat → Form) :
    layout.assignedSize forms = settled.assignedSize forms := by
  obtain ⟨laterWellFormed, evolves⟩ := settles.evolves wellFormed
  rw [assignedSize, assignedSize, evolves.descriptors.size]
  exact ((Keeps.of_evolves evolves).startOf_assign forms wellFormed laterWellFormed
    (Nat.le_refl _)).symm

/-- The code at the fixed point is as large as its forms say. -/
theorem Settles.codeSize_eq_assignedSize
    (settles : Settles config layout settled)
    (regular : layout.Regular) :
    settled.codeSize = layout.assignedSize settled.formOf := by
  obtain ⟨wellFormed, -⟩ := settles.evolves regular.wellFormed
  rw [settles.assignedSize_eq regular.wellFormed,
    (regular.settles settles).located.codeSize_eq wellFormed]
  exact (sizeBetween_congr fun index _ _ => wellFormed.sizeAt_assign_formOf index).symm

/-- Code whose jumps are not longer than assigned is not larger than assigned. -/
theorem Settles.codeSize_le_assignedSize
    (settles : Settles config layout settled)
    (regular : layout.Regular)
    {forms : Nat → Form}
    (below : settled.Below forms) :
    settled.codeSize ≤ layout.assignedSize forms := by
  obtain ⟨wellFormed, -⟩ := settles.evolves regular.wellFormed
  rw [settles.assignedSize_eq regular.wellFormed,
    (regular.settles settles).located.codeSize_eq wellFormed]
  exact sizeBetween_le_of_sizeAt_le fun index _ => below.sizeAt_le_assign wellFormed index

end FixedPoint

end Layout

namespace Session

/-- Commands, with relaxation without a margin among them, stay below every assignment. -/
theorem Changes.least
    {terms : Terms}
    {before after : Session}
    (changes : Changes terms before after)
    (succeed : ∀ answer, terms.accepts answer → ∃ stats, answer = .ok stats)
    (regular : before.layout.Regular)
    (noReserve : before.config.branchGrowthReserve = 0)
    (least : before.layout.Least) :
    after.layout.Least := by
  induction changes with
  | refl =>
      exact least
  | @tail middle after earlier change inductionHypothesis =>
      have middleRegular := Changes.regular earlier succeed regular
      have afterRegular := Changes.regular (.single change) succeed middleRegular
      have keeps := Changes.keeps (.single change) middleRegular.wellFormed
      have unchanged (same : after.layout.jumps = middle.layout.jumps) :
          after.layout.Least := by
        refine inductionHypothesis.of_keeps keeps middleRegular.wellFormed
          afterRegular.wellFormed ?_
        rw [same]
        intro id jump found
        exact Or.inr ⟨jump, found, rfl⟩
      cases change with
      | jump kind target sound room =>
          refine inductionHypothesis.of_keeps keeps middleRegular.wellFormed
            afterRegular.wellFormed ?_
          intro id jump found
          change (middle.layout.jumps.push _)[id]? = some jump at found
          rw [Array.getElem?_push] at found
          split at found
          · cases found
            exact Or.inl rfl
          · exact Or.inr ⟨jump, found, rfl⟩
      | keepLong id =>
          refine inductionHypothesis.of_keeps keeps middleRegular.wellFormed
            afterRegular.wellFormed ?_
          have same :
              Layout.Pointwise (fun old new : Jump => new.form = old.form)
                middle.layout.jumps
                (middle.layout.jumps.modify id.index ({ · with keepLong := true })) :=
            Layout.Pointwise.modify (by intro; rfl) _ _ (by intros; rfl)
          intro other jump found
          exact Or.inr (same.backward found)
      | relax accepted =>
          obtain ⟨stats, succeeds⟩ := succeed _ accepted
          have stillNoReserve : middle.config.branchGrowthReserve = 0 := by
            rw [Changes.config earlier]
            exact noReserve
          -- Relaxation changes forms only, so what fits behind it has fitted in front of it.
          intro forms fits
          have fitted := fits.of_keeps keeps middleRegular.wellFormed afterRegular.wellFormed
          exact (inductionHypothesis forms fitted).settles middleRegular stillNoReserve fitted
            (settles_of_relax succeeds).1
      | addLabel =>
          exact unchanged rfl
      | openGroup =>
          exact unchanged rfl
      | bindLabel =>
          exact unchanged rfl
      | setRegion =>
          exact unchanged rfl
      | setPool =>
          exact unchanged rfl
      | operation =>
          exact unchanged rfl

/--
Relaxation without a margin finds the least layout.  The forms that it leaves fit
the program, no assignment that fits gives any jump a shorter form, and so none has
smaller code.
-/
theorem relaxed_forms_least
    (config : Config)
    (commands : List Command)
    (relaxes :
      ∀ front back,
        commands = front ++ .relax :: back →
          ∃ stats, ((start config).run front).relax.1 = .ok stats)
    (noReserve : config.branchGrowthReserve = 0)
    (small : config.smallFunctionBytes ≤ 0xfff)
    {stats : RelaxStats}
    (succeeds : ((start config).run commands).relax.1 = .ok stats) :
    let program := ((start config).run commands).layout
    let relaxed := ((start config).run commands).relax.2.layout
    (∀ jump ∈ program.jumps, ∃ place, program.GoesTo jump place) ∧
      program.Fits relaxed.formOf ∧
        stats.codeSize = program.assignedSize relaxed.formOf ∧
          ∀ forms,
            program.Fits forms →
              (∀ (id : Nat) (jump : Jump),
                relaxed.jumps[id]? = some jump → jump.form.rank ≤ (forms id).rank) ∧
                stats.codeSize ≤ program.assignedSize forms := by
  intro program relaxed
  have regular : program.Regular := regular_run relaxes
  have least : program.Least := by
    refine Changes.least (run_changes_accepting relaxes) (fun _ succeeds => succeeds)
      Layout.regular_empty noReserve ?_
    intro forms _ id jump found
    cases found
  obtain ⟨settles, isSize⟩ := settles_of_relax succeeds
  rw [config_run config commands] at settles
  obtain ⟨relaxedWellFormed, evolves⟩ := settles.evolves regular.wellFormed
  refine ⟨?_, ?_, ?_, ?_⟩
  · intro jump member
    obtain ⟨id, found⟩ := Array.mem_iff_getElem?.mp member
    obtain ⟨later, foundLater, evolved⟩ := evolves.jumps.forward id jump found
    obtain ⟨place, goes, -⟩ := settles.exists_goesTo small regular foundLater
    exact ⟨place, (Layout.goesTo_iff_of_evolves evolves evolved place).mp goes⟩
  · exact (settles.fits_formOf small regular).of_keeps (Layout.Keeps.of_evolves evolves)
      regular.wellFormed relaxedWellFormed
  · exact isSize.trans (settles.codeSize_eq_assignedSize regular)
  · intro forms fits
    have below := (least forms fits).settles regular noReserve fits settles
    exact ⟨below, Nat.le_trans (Nat.le_of_eq isSize)
      (settles.codeSize_le_assignedSize regular below)⟩

/--
A far branch that is relaxed early, and behind it a branch that is pushed out of
range by the growth of another one, at the far end of the code.
-/
def growthPushesGrowth : List Command :=
  [.setRegion .prolog, .newLabel, .newLabel, .bindLabel ⟨0⟩,
    .branch .bne (.x 10) (.x 11) ⟨0⟩, .keepLong ⟨0⟩, .relax,
    .branch .beq (.x 10) (.x 11) ⟨1⟩] ++
      List.replicate 127 (.loadConstant (.x 12) 0x123456789abcdef1) ++
        List.replicate 5 (.immediate .addi (.x 12) (.x 12) 1) ++
          [.branch .blt (.x 10) (.x 11) ⟨0⟩, .bindLabel ⟨1⟩]

theorem relaxed_forms_least_growthPushesGrowth :
    let config : Config := { branchGrowthReserve := 0, smallFunctionBytes := 0 }
    let session := (start config).run growthPushesGrowth
    (∀ front back,
      growthPushesGrowth = front ++ .relax :: back →
        ∃ stats, ((start config).run front).relax.1 = .ok stats) ∧
      config.branchGrowthReserve = 0 ∧ config.smallFunctionBytes ≤ 0xfff ∧
        ∃ stats,
          session.relax.1 = .ok stats ∧ stats.passes = 3 ∧ stats.codeSize = 4112 ∧
            session.layout.Fits session.relax.2.layout.formOf ∧
              ∀ forms, session.layout.Fits forms → 4112 ≤ session.layout.assignedSize forms := by
  intro config session
  have relaxes :
      ∀ front back,
        growthPushesGrowth = front ++ .relax :: back →
          ∃ stats, ((start config).run front).relax.1 = .ok stats :=
    relaxes_of_take (by decide +kernel)
  have relaxed :
      session.relax.1.map (fun stats => (stats.passes, stats.codeSize)) = .ok (3, 4112) := by
    decide +kernel
  obtain ⟨stats, succeeds, isSummary⟩ := map_eq_ok_iff.mp relaxed
  obtain ⟨passes, codeSize⟩ := Prod.mk.inj isSummary
  obtain ⟨-, fits, -, least⟩ :=
    relaxed_forms_least config growthPushesGrowth relaxes rfl (by decide) succeeds
  refine ⟨relaxes, rfl, by decide, stats, succeeds, passes, codeSize, fits, ?_⟩
  intro forms fitsToo
  rw [← codeSize]
  exact (least forms fitsToo).2

end Session

end Rv64Codegen
