import Rv64Codegen.Proofs.Outcome
import Rv64Codegen.Proofs.Program.WellFormed
import Rv64Codegen.Proofs.Program.Width
import Rv64Codegen.Relaxation.FixedPoint

namespace Rv64Codegen

/-!
# What a pass does to a layout

A pass visits jump after jump, and between two visits it has a layout: the
groups and descriptors as they are, the visited jumps and behind them the ones
that are still to come.  A visit moves groups and replaces one jump by a later
state of itself, together with its descriptor and its group.  From this one
description follow all statements about passes, by one induction over the walk.
-/

/-- A later state of a jump: longer perhaps, and bound perhaps. -/
structure Jump.Evolves (before after : Jump) : Prop where
  kind : after.kind = before.kind
  target : after.target = before.target
  keepLong : after.keepLong = before.keepLong
  group : after.group = before.group
  descriptor : after.descriptor = before.descriptor
  rank : before.form.rank ≤ after.form.rank
  resolved : ∀ target, before.resolved = some target → after.resolved = some target

namespace Jump

theorem Evolves.refl (jump : Jump) :
    jump.Evolves jump :=
  ⟨rfl, rfl, rfl, rfl, rfl, Nat.le_refl _, fun _ isTarget => isTarget⟩

theorem Evolves.trans
    {first second third : Jump}
    (early : first.Evolves second)
    (late : second.Evolves third) :
    first.Evolves third where
  kind := late.kind.trans early.kind
  target := late.target.trans early.target
  keepLong := late.keepLong.trans early.keepLong
  group := late.group.trans early.group
  descriptor := late.descriptor.trans early.descriptor
  rank := Nat.le_trans early.rank late.rank
  resolved := fun target isTarget => late.resolved target (early.resolved target isTarget)

/-- Moving to a form gives the longer of the two. -/
theorem form_upgrade
    (jump : Jump)
    (form : Form) :
    (jump.upgrade form).form = if form.rank ≤ jump.form.rank then jump.form else form := by
  unfold upgrade
  split
  · rfl
  · cases form with
    | short =>
        rename_i longer
        exact absurd (Nat.zero_le _) longer
    | near =>
        rfl
    | far =>
        rfl

theorem upgrade_evolves
    (jump : Jump)
    (form : Form) :
    jump.Evolves (jump.upgrade form) := by
  have isForm := jump.form_upgrade form
  have rank : jump.form.rank ≤ (jump.upgrade form).form.rank := by
    rw [isForm]
    split
    · exact Nat.le_refl _
    · omega
  revert rank
  clear isForm
  unfold upgrade
  split
  · exact fun _ => Evolves.refl jump
  · intro rank
    cases form with
    | short =>
        exact Evolves.refl jump
    | near =>
        exact ⟨rfl, rfl, rfl, rfl, rfl, rank, fun _ isTarget => isTarget⟩
    | far =>
        exact ⟨rfl, rfl, rfl, rfl, rfl, rank, fun _ isTarget => isTarget⟩

/-- Two jumps of the same kind have the same forms, and these the same sizes. -/
theorem forms_of_kind
    {first second : Jump}
    (same : second.kind = first.kind) :
    second.forms = first.forms ∧ second.sizeOf = first.sizeOf := by
  have conditional : second.isConditional = first.isConditional := by
    unfold isConditional
    rw [same]
  refine ⟨by unfold forms; rw [conditional], ?_⟩
  funext form
  cases form <;> simp only [sizeOf, conditional]

/-- A longer form takes more bytes. -/
theorem sizeOf_lt_of_rank_lt
    {jump : Jump}
    {current next : Form}
    (isForm : current ∈ jump.forms)
    (longer : current.rank < next.rank) :
    jump.sizeOf current < jump.sizeOf next := by
  unfold forms at isForm
  cases current <;> cases next <;>
    simp only [Form.rank] at longer <;>
    cases conditional : jump.isConditional <;>
    simp_all [sizeOf]

/-- A jump that moves to a longer form takes more bytes. -/
theorem size_lt_upgrade
    {jump : Jump}
    {form : Form}
    (isForm : jump.form ∈ jump.forms)
    (longer : jump.form.rank < form.rank) :
    jump.size < (jump.upgrade form).size := by
  rw [size, size, form_upgrade, if_neg (Nat.not_le_of_lt longer),
    (forms_of_kind (jump.upgrade_evolves form).kind).2]
  exact sizeOf_lt_of_rank_lt isForm longer

theorem rank_injective
    {first second : Form}
    (same : first.rank = second.rank) :
    first = second := by
  cases first <;> cases second <;> first | rfl | cases same

theorem sizeOf_le_of_rank_le
    {jump : Jump}
    {current next : Form}
    (isForm : current ∈ jump.forms)
    (notShorter : current.rank ≤ next.rank) :
    jump.sizeOf current ≤ jump.sizeOf next := by
  rcases Nat.lt_or_eq_of_le notShorter with longer | same
  · exact Nat.le_of_lt (sizeOf_lt_of_rank_lt isForm longer)
  · exact Nat.le_of_eq (congrArg jump.sizeOf (rank_injective same))

theorem size_le_of_evolves
    {before after : Jump}
    (evolves : before.Evolves after)
    (isForm : before.form ∈ before.forms) :
    before.size ≤ after.size := by
  rw [size, size, (forms_of_kind evolves.kind).2]
  exact sizeOf_le_of_rank_le isForm evolves.rank

end Jump

namespace Layout

/-- A later state of a layout: the same program, with some descriptors grown. -/
structure Evolves (before after : Layout) : Prop where
  groups :
    Pointwise
      (fun old new =>
        new.first = old.first ∧ new.count = old.count ∧ new.isTarget = old.isTarget)
      before.groups after.groups
  descriptors :
    Pointwise (fun old new => new.operation = old.operation ∧ old.size ≤ new.size)
      before.descriptors after.descriptors
  jumps : Pointwise Jump.Evolves before.jumps after.jumps
  labels : after.labels = before.labels

theorem Evolves.refl (layout : Layout) :
    layout.Evolves layout where
  groups := Pointwise.refl (fun _ => ⟨rfl, rfl, rfl⟩) _
  descriptors := Pointwise.refl (fun _ => ⟨rfl, Nat.le_refl _⟩) _
  jumps := Pointwise.refl Jump.Evolves.refl _
  labels := rfl

theorem Evolves.trans
    {first second third : Layout}
    (early : first.Evolves second)
    (late : second.Evolves third) :
    first.Evolves third where
  groups := by
    refine Pointwise.trans ?_ early.groups late.groups
    intro old middle new toMiddle fromMiddle
    exact ⟨fromMiddle.1.trans toMiddle.1, fromMiddle.2.1.trans toMiddle.2.1,
      fromMiddle.2.2.trans toMiddle.2.2⟩
  descriptors := by
    refine Pointwise.trans ?_ early.descriptors late.descriptors
    intro old middle new toMiddle fromMiddle
    exact ⟨fromMiddle.1.trans toMiddle.1, Nat.le_trans toMiddle.2 fromMiddle.2⟩
  jumps := Pointwise.trans (fun _ _ _ toMiddle => toMiddle.trans) early.jumps late.jumps
  labels := late.labels.trans early.labels

/-- Replacing a jump by a later state of itself is a later state of the layout. -/
theorem evolves_updateJump
    {layout : Layout}
    {id : Nat}
    {before after : Jump}
    (found : layout.jumps[id]? = some before)
    (evolves : before.Evolves after)
    (bytes : Nat) :
    layout.Evolves (layout.updateJump id after bytes) where
  groups := by
    show Pointwise _ layout.groups
      (layout.groups.modify after.group.index (Group.grow · bytes))
    refine Pointwise.modify (fun _ => ⟨rfl, rfl, rfl⟩) _ _ ?_
    intro group _
    exact ⟨rfl, rfl, rfl⟩
  descriptors := by
    show Pointwise _ layout.descriptors (growAt layout.descriptors after.descriptor bytes)
    refine Pointwise.modify (fun _ => ⟨rfl, Nat.le_refl _⟩) _ _ ?_
    intro descriptor _
    exact ⟨rfl, Nat.le_add_right _ _⟩
  jumps := by
    refine ⟨Array.size_setIfInBounds, ?_⟩
    intro index old foundOld
    show ∃ new, (layout.jumps.setIfInBounds id after)[index]? = some new ∧ _
    obtain ⟨inside, -⟩ := Array.getElem?_eq_some_iff.mp found
    rw [Array.getElem?_setIfInBounds]
    by_cases here : id = index
    · subst here
      rw [foundOld] at found
      cases found
      exact ⟨after, by rw [if_pos rfl, if_pos inside], evolves⟩
    · exact ⟨old, by rw [if_neg here]; exact foundOld, Jump.Evolves.refl old⟩
  labels := rfl

end Layout

namespace Relaxation

/-!
## Moving groups
-/

theorem size_shiftGroups
    (bytes count index : Nat)
    (groups : Array Group) :
    (shiftGroups bytes count index groups).size = groups.size := by
  induction count generalizing index groups with
  | zero =>
      rfl
  | succ count inductionHypothesis =>
      rw [shiftGroups, inductionHypothesis, Array.size_modify]

/-- Moving groups up moves exactly the ones it is asked for. -/
theorem getElem?_shiftGroups
    (bytes count index : Nat)
    (groups : Array Group)
    (place : Nat) :
    (shiftGroups bytes count index groups)[place]? =
      groups[place]?.map fun group =>
        if index ≤ place ∧ place < index + count then group.shift bytes else group := by
  induction count generalizing index groups with
  | zero =>
      rw [shiftGroups]
      cases groups[place]? with
      | none =>
          rfl
      | some group =>
          rw [Option.map_some, if_neg (by omega)]
  | succ count inductionHypothesis =>
      rw [shiftGroups, inductionHypothesis, Array.getElem?_modify]
      cases found : groups[place]? with
      | none =>
          simp
      | some group =>
          by_cases here : index = place
          · subst here
            rw [if_pos rfl, Option.map_some, Option.map_some, Option.map_some,
              if_neg (by omega), if_pos (by omega)]
          · rw [if_neg here, Option.map_some, Option.map_some]
            by_cases moved : index + 1 ≤ place ∧ place < index + 1 + count
            · rw [if_pos moved, if_pos (by omega)]
            · rw [if_neg moved, if_neg (by omega)]

namespace Sweep

/-- The layout of a pass between two visits. -/
def toLayout
    (sweep : Sweep)
    (labels : Array (Option GroupId))
    (pending : List Jump) :
    Layout where
  groups := sweep.groups
  descriptors := sweep.descriptors
  jumps := sweep.visited ++ pending
  labels := labels

theorem getElem?_enter_groups
    (sweep : Sweep)
    (group : GroupId)
    (place : Nat) :
    (sweep.enter group).groups[place]? =
      sweep.groups[place]?.map fun entry =>
        if sweep.nextGroup ≤ place ∧ place < group.index + 1 then entry.shift sweep.growth
        else entry := by
  unfold enter
  split
  · rename_i inside
    cases sweep.groups[place]? with
    | none =>
        rfl
    | some entry =>
        rw [Option.map_some, if_neg (by omega)]
  · rw [getElem?_shiftGroups]
    cases sweep.groups[place]? with
    | none =>
        rfl
    | some entry =>
        rw [Option.map_some, Option.map_some]
        by_cases moved : sweep.nextGroup ≤ place ∧ place < group.index + 1
        · rw [if_pos moved, if_pos (by omega)]
        · rw [if_neg moved, if_neg (by omega)]

theorem size_enter_groups
    (sweep : Sweep)
    (group : GroupId) :
    (sweep.enter group).groups.size = sweep.groups.size := by
  unfold enter
  split
  · rfl
  · exact size_shiftGroups ..

@[simp] theorem enter_descriptors
    (sweep : Sweep)
    (group : GroupId) :
    (sweep.enter group).descriptors = sweep.descriptors := by
  unfold enter
  split <;> rfl

@[simp] theorem enter_visited
    (sweep : Sweep)
    (group : GroupId) :
    (sweep.enter group).visited = sweep.visited := by
  unfold enter
  split <;> rfl

@[simp] theorem enter_growth
    (sweep : Sweep)
    (group : GroupId) :
    (sweep.enter group).growth = sweep.growth := by
  unfold enter
  split <;> rfl

@[simp] theorem enter_upgrades
    (sweep : Sweep)
    (group : GroupId) :
    (sweep.enter group).upgrades = sweep.upgrades := by
  unfold enter
  split <;> rfl

@[simp] theorem enter_nextGroup
    (sweep : Sweep)
    (group : GroupId) :
    (sweep.enter group).nextGroup = group.index + 1 := by
  unfold enter
  split
  · assumption
  · rfl

theorem enter_groupGrowth
    (sweep : Sweep)
    (group : GroupId) :
    (sweep.enter group).groupGrowth =
      if sweep.nextGroup = group.index + 1 then sweep.groupGrowth else 0 := by
  unfold enter
  split <;> rfl

theorem grow_groups
    (sweep : Sweep)
    (before after : Jump) :
    (sweep.grow before after).groups =
      sweep.groups.modify before.group.index (Group.grow · (after.size - before.size)) := by
  unfold grow
  dsimp only
  split
  · rename_i nothing
    rw [nothing, Layout.modify_grow_zero]
  · rfl

theorem grow_descriptors
    (sweep : Sweep)
    (before after : Jump) :
    (sweep.grow before after).descriptors =
      Layout.growAt sweep.descriptors before.descriptor (after.size - before.size) := by
  unfold grow
  dsimp only
  split
  · rename_i nothing
    rw [nothing, Layout.growAt_zero]
  · rfl

@[simp] theorem grow_visited
    (sweep : Sweep)
    (before after : Jump) :
    (sweep.grow before after).visited = sweep.visited := by
  unfold grow
  dsimp only
  split <;> rfl

@[simp] theorem grow_nextGroup
    (sweep : Sweep)
    (before after : Jump) :
    (sweep.grow before after).nextGroup = sweep.nextGroup := by
  unfold grow
  dsimp only
  split <;> rfl

theorem grow_growth
    (sweep : Sweep)
    (before after : Jump) :
    (sweep.grow before after).growth = sweep.growth + (after.size - before.size) := by
  unfold grow
  dsimp only
  split
  · rename_i nothing
    rw [nothing]
    rfl
  · rfl

theorem grow_groupGrowth
    (sweep : Sweep)
    (before after : Jump) :
    (sweep.grow before after).groupGrowth =
      sweep.groupGrowth + (after.size - before.size) := by
  unfold grow
  dsimp only
  split
  · rename_i nothing
    rw [nothing]
    rfl
  · rfl

theorem grow_upgrades
    (sweep : Sweep)
    (before after : Jump) :
    (sweep.grow before after).upgrades =
      if after.size - before.size = 0 then sweep.upgrades else sweep.upgrades + 1 := by
  unfold grow
  dsimp only
  split
  · rfl
  · rfl

theorem grow_self
    (sweep : Sweep)
    (jump : Jump) :
    sweep.grow jump jump = sweep := by
  unfold grow
  rw [Nat.sub_self]
  rfl

/-!
## Visits
-/

/-- A jump at its place in this pass. -/
def moved
    (sweep : Sweep)
    (jump : Jump) :
    Jump :=
  { jump with offset := jump.offset + (sweep.enter jump.group).groupGrowth }

theorem visit_eq
    {sweep : Sweep}
    (setting : Setting)
    (pending : List Jump)
    {jump : Jump}
    {own : Group}
    (found : (sweep.enter jump.group).groups[jump.group.index]? = some own) :
    sweep.visit setting pending jump =
      match bind setting.labels own (sweep.moved jump) with
      | .error cause =>
          ⟨sweep.moved jump, sweep.enter jump.group, some (.refused cause)⟩
      | .ok (target, bound) =>
          match (sweep.enter jump.group).decideForm setting pending own bound target with
          | .error failure =>
              ⟨bound, sweep.enter jump.group, some failure⟩
          | .ok form =>
              ⟨bound.upgrade form,
                (sweep.enter jump.group).grow bound (bound.upgrade form), none⟩ := by
  unfold visit
  dsimp only
  rw [found]
  rfl

/--
The three ways a visit can go: the target is not found, no form reaches it, or
the jump moves to the form that was chosen.
-/
theorem visit_cases
    {sweep : Sweep}
    (setting : Setting)
    (pending : List Jump)
    {jump : Jump}
    {own : Group}
    (found : (sweep.enter jump.group).groups[jump.group.index]? = some own) :
    (∃ cause,
      bind setting.labels own (sweep.moved jump) = .error cause ∧
        sweep.visit setting pending jump =
          ⟨sweep.moved jump, sweep.enter jump.group, some (.refused cause)⟩) ∨
      ∃ target bound,
        bind setting.labels own (sweep.moved jump) = .ok (target, bound) ∧
          ((∃ failure,
            (sweep.enter jump.group).decideForm setting pending own bound target =
                .error failure ∧
              sweep.visit setting pending jump =
                ⟨bound, sweep.enter jump.group, some failure⟩) ∨
            ∃ form,
              (sweep.enter jump.group).decideForm setting pending own bound target =
                  .ok form ∧
                sweep.visit setting pending jump =
                  ⟨bound.upgrade form,
                    (sweep.enter jump.group).grow bound (bound.upgrade form), none⟩) := by
  rw [visit_eq setting pending found]
  cases bind setting.labels own (sweep.moved jump) with
  | error cause =>
      exact Or.inl ⟨cause, rfl, rfl⟩
  | ok pair =>
      obtain ⟨target, bound⟩ := pair
      refine Or.inr ⟨target, bound, rfl, ?_⟩
      dsimp only
      cases (sweep.enter jump.group).decideForm setting pending own bound target with
      | error failure =>
          exact Or.inl ⟨failure, rfl, rfl⟩
      | ok form =>
          exact Or.inr ⟨form, rfl, rfl⟩

/-- A visit that succeeds binds its jump and moves it to the form that was chosen. -/
theorem visit_of_succeeds
    {sweep : Sweep}
    {setting : Setting}
    {pending : List Jump}
    {jump : Jump}
    {own : Group}
    (found : (sweep.enter jump.group).groups[jump.group.index]? = some own)
    (succeeds : (sweep.visit setting pending jump).failure = none) :
    ∃ target bound form,
      bind setting.labels own (sweep.moved jump) = .ok (target, bound) ∧
        (sweep.enter jump.group).decideForm setting pending own bound target = .ok form ∧
          sweep.visit setting pending jump =
            ⟨bound.upgrade form, (sweep.enter jump.group).grow bound (bound.upgrade form),
              none⟩ := by
  rcases visit_cases setting pending found with
    ⟨cause, -, visited⟩ | ⟨target, bound, binds, ⟨failure, -, visited⟩ | ⟨form, decides, visited⟩⟩
  · rw [visited] at succeeds
    cases succeeds
  · rw [visited] at succeeds
    cases succeeds
  · exact ⟨target, bound, form, binds, decides, visited⟩

theorem enter_sameRun
    (sweep : Sweep)
    (group : GroupId) :
    Layout.Pointwise Layout.SameRun sweep.groups (sweep.enter group).groups := by
  refine ⟨sweep.size_enter_groups group, ?_⟩
  intro index old found
  rw [getElem?_enter_groups, found, Option.map_some]
  refine ⟨_, rfl, ?_⟩
  split
  · exact ⟨rfl, rfl, rfl⟩
  · exact ⟨rfl, rfl, rfl⟩

/-- Entering a group keeps the layout of a pass well-formed. -/
theorem wellFormed_enter
    {sweep : Sweep}
    {labels : Array (Option GroupId)}
    {pending : List Jump}
    (wellFormed : (sweep.toLayout labels pending).WellFormed)
    (group : GroupId) :
    ((sweep.enter group).toLayout labels pending).WellFormed := by
  have moved := wellFormed.regroup (sweep.enter_sameRun group)
  unfold toLayout at moved ⊢
  rw [enter_descriptors, enter_visited]
  exact moved

theorem evolves_enter
    (sweep : Sweep)
    (labels : Array (Option GroupId))
    (pending : List Jump)
    (group : GroupId) :
    (sweep.toLayout labels pending).Evolves
      ((sweep.enter group).toLayout labels pending) := by
  refine ⟨⟨sweep.size_enter_groups group, ?_⟩, ?_, ?_, rfl⟩
  · intro index old found
    show ∃ new, (sweep.enter group).groups[index]? = some new ∧ _
    rw [getElem?_enter_groups, show sweep.groups[index]? = some old from found,
      Option.map_some]
    refine ⟨_, rfl, ?_⟩
    split
    · exact ⟨rfl, rfl, rfl⟩
    · exact ⟨rfl, rfl, rfl⟩
  · unfold toLayout
    rw [enter_descriptors]
    exact (Layout.Evolves.refl _).descriptors
  · unfold toLayout
    rw [enter_visited]
    exact (Layout.Evolves.refl _).jumps

/-- The jump that is visited next, in the layout of the pass. -/
theorem getElem?_toLayout_jumps
    (sweep : Sweep)
    (labels : Array (Option GroupId))
    (jump : Jump)
    (pending : List Jump) :
    (sweep.toLayout labels (jump :: pending)).jumps[sweep.visited.size]? = some jump := by
  show (sweep.visited ++ (jump :: pending))[sweep.visited.size]? = some jump
  rw [← Array.getElem?_toList, Array.toList_appendList]
  simp

/-- A resolved target is the one that was asked for. -/
theorem resolves_of_resolve
    {layout : Layout}
    {jump : Jump}
    {own : Group}
    {target : Resolved}
    (found : layout.groups[jump.group.index]? = some own)
    (isResolved : resolve layout.labels own jump = .ok target) :
    layout.Resolves jump target := by
  unfold resolve at isResolved
  split at isResolved
  · rename_i label asked
    split at isResolved
    · rename_i group isBound
      cases isResolved
      exact ⟨label, asked, isBound⟩
    · cases isResolved
  · rename_i count asked
    dsimp only at isResolved
    split at isResolved
    · rename_i range
      cases isResolved
      exact ⟨count, own, asked, found, by omega, by omega⟩
    · cases isResolved

/-- Binding a jump finds its target and changes no size. -/
theorem bind_spec
    {layout : Layout}
    {jump bound : Jump}
    {own : Group}
    {target : Resolved}
    (found : layout.groups[jump.group.index]? = some own)
    (fresh : jump.resolved = none → jump.state = .shortUnbound)
    (resolved : ∀ target, jump.resolved = some target → layout.Resolves jump target)
    (binds : bind layout.labels own jump = .ok (target, bound)) :
    jump.Evolves bound ∧ bound.form = jump.form ∧ bound.offset = jump.offset ∧
      bound.resolved = some target ∧ layout.Resolves bound target := by
  unfold bind at binds
  split at binds
  · rename_i known isKnown
    cases binds
    exact ⟨Jump.Evolves.refl jump, rfl, rfl, isKnown, resolved _ isKnown⟩
  · rename_i unknown
    cases resolves : resolve layout.labels own jump with
    | error cause =>
        rw [resolves] at binds
        cases binds
    | ok answer =>
        rw [resolves] at binds
        cases binds
        have isForm : jump.form = .short := by
          unfold Jump.form
          rw [fresh unknown]
        have answers := resolves_of_resolve found resolves
        refine ⟨⟨rfl, rfl, rfl, rfl, rfl, ?_, ?_⟩, isForm.symm, rfl, rfl, ?_⟩
        · rw [isForm]
          exact Nat.zero_le _
        · intro other isOther
          rw [unknown] at isOther
          cases isOther
        · cases target with
          | group group =>
              exact answers
          | inGroup position =>
              exact answers

/-- Only forms that the jump may take are chosen. -/
theorem decideForm_mem
    {sweep : Sweep}
    {setting : Setting}
    {pending : List Jump}
    {own : Group}
    {jump : Jump}
    {target : Resolved}
    {form : Form}
    (isForm : jump.form ∈ jump.forms)
    (decides : sweep.decideForm setting pending own jump target = .ok form) :
    form ∈ jump.forms := by
  have far : Form.far ∈ jump.forms := by
    unfold Jump.forms
    split <;> simp
  unfold decideForm at decides
  dsimp only at decides
  split at decides
  · split at decides
    · cases decides
    · rename_i aim _
      rw [Failure.ofRefusal_eq_ok_iff, chooseForm] at decides
      split at decides
      · rename_i chosen isChosen
        cases decides
        have member := List.mem_of_find?_eq_some isChosen
        exact (List.mem_filter.mp member).1
      · cases decides
  · cases decides
    split
    · exact far
    · exact isForm

/-- No form is chosen that is shorter than the current one. -/
theorem rank_le_of_decideForm
    {sweep : Sweep}
    {setting : Setting}
    {pending : List Jump}
    {own : Group}
    {jump : Jump}
    {target : Resolved}
    {form : Form}
    (decides : sweep.decideForm setting pending own jump target = .ok form) :
    jump.form.rank ≤ form.rank := by
  have wantedLonger :
      jump.form.rank ≤ (if jump.keepLong then Form.far else jump.form).rank := by
    split
    · cases jump.form <;> decide
    · exact Nat.le_refl _
  unfold decideForm at decides
  dsimp only at decides
  split at decides
  · split at decides
    · cases decides
    · rw [Failure.ofRefusal_eq_ok_iff, chooseForm] at decides
      split at decides
      · rename_i chosen isChosen
        cases decides
        have longer := (List.mem_filter.mp (List.mem_of_find?_eq_some isChosen)).2
        exact Nat.le_trans wantedLonger (of_decide_eq_true longer)
      · cases decides
  · cases decides
    exact wantedLonger

theorem resolves_congr
    {layout : Layout}
    {before after : Jump}
    {target : Resolved}
    (evolves : before.Evolves after)
    (resolves : layout.Resolves before target) :
    layout.Resolves after target := by
  cases target with
  | group group =>
      obtain ⟨label, asked, isBound⟩ := resolves
      exact ⟨label, evolves.target.trans asked, isBound⟩
  | inGroup position =>
      obtain ⟨count, own, asked, found, exact, inside⟩ := resolves
      refine ⟨count, own, evolves.target.trans asked, ?_, ?_, inside⟩
      · rw [evolves.group]
        exact found
      · rw [evolves.descriptor]
        exact exact

theorem moved_evolves
    (sweep : Sweep)
    (jump : Jump) :
    jump.Evolves (sweep.moved jump) :=
  ⟨rfl, rfl, rfl, rfl, rfl, Nat.le_refl _, fun _ isTarget => isTarget⟩

/-- The next jump of a pass, bound at its place in this pass. -/
theorem bind_moved
    {sweep : Sweep}
    {setting : Setting}
    {pending : List Jump}
    {jump bound : Jump}
    {own : Group}
    {target : Resolved}
    (wellFormed : (sweep.toLayout setting.labels (jump :: pending)).WellFormed)
    (found : (sweep.enter jump.group).groups[jump.group.index]? = some own)
    (binds : bind setting.labels own (sweep.moved jump) = .ok (target, bound)) :
    jump.Evolves bound ∧ bound.form = jump.form ∧
      bound.offset = (sweep.moved jump).offset ∧ bound.resolved = some target ∧
        ((sweep.enter jump.group).toLayout setting.labels (jump :: pending)).Resolves
          bound target := by
  have entered := wellFormed_enter wellFormed jump.group
  have isNext := (sweep.enter jump.group).getElem?_toLayout_jumps setting.labels jump pending
  have holds := entered.holds _ jump isNext
  have foundMoved :
      ((sweep.enter jump.group).toLayout setting.labels (jump :: pending)).groups[
        (sweep.moved jump).group.index]? = some own := found
  obtain ⟨evolves, sameForm, sameOffset, known, resolves⟩ :=
    bind_spec foundMoved holds.fresh
      (fun target isTarget =>
        resolves_congr (sweep.moved_evolves jump) (holds.resolved target isTarget))
      binds
  exact ⟨(sweep.moved_evolves jump).trans evolves, sameForm, sameOffset, known, resolves⟩

/--
What a visit leaves: a later state of the jump, at the place that it has in this
pass, and the groups and descriptors grown by what the jump has grown by.
-/
structure Advances
    (sweep : Sweep)
    (layout : Layout)
    (jump : Jump)
    (visit : Visit) :
    Prop where
  evolves : jump.Evolves visit.jump
  offset : visit.jump.offset = (sweep.moved jump).offset
  form : visit.jump.form ∈ visit.jump.forms
  fresh : visit.jump.resolved = none → visit.jump.state = .shortUnbound
  resolved :
    ∀ target, visit.jump.resolved = some target → layout.Resolves visit.jump target
  sweep :
    ∃ bound, bound.group = jump.group ∧ bound.descriptor = jump.descriptor ∧
      bound.size = jump.size ∧
        visit.sweep = (sweep.enter jump.group).grow bound visit.jump

/-- Every visit of a well-formed pass advances its jump. -/
theorem visit_advances
    {sweep : Sweep}
    {setting : Setting}
    {pending : List Jump}
    {jump : Jump}
    (wellFormed : (sweep.toLayout setting.labels (jump :: pending)).WellFormed) :
    sweep.Advances ((sweep.enter jump.group).toLayout setting.labels (jump :: pending))
      jump (sweep.visit setting pending jump) := by
  have entered := wellFormed_enter wellFormed jump.group
  have isNext := (sweep.enter jump.group).getElem?_toLayout_jumps setting.labels jump pending
  have holds := entered.holds _ jump isNext
  obtain ⟨own, found, -, -⟩ := holds.owned
  rcases visit_cases setting pending found with
    ⟨cause, -, visited⟩ | ⟨target, bound, binds, ⟨failure, -, visited⟩ | ⟨form, decides, visited⟩⟩
  · rw [visited]
    refine ⟨sweep.moved_evolves jump, rfl, holds.form, holds.fresh, ?_, ?_⟩
    · intro target isTarget
      exact resolves_congr (sweep.moved_evolves jump) (holds.resolved target isTarget)
    · exact ⟨sweep.moved jump, rfl, rfl, rfl, (grow_self _ _).symm⟩
  -- In the other two cases the jump has been bound, in the form that it had.
  all_goals
    obtain ⟨boundEvolves, sameForm, sameOffset, known, resolves⟩ :=
      bind_moved wellFormed found binds
    obtain ⟨sameForms, sameSizes⟩ := Jump.forms_of_kind boundEvolves.kind
    have isForm : bound.form ∈ bound.forms := by
      rw [sameForm, sameForms]
      exact holds.form
    have sameSize : bound.size = jump.size := by
      rw [Jump.size, sameForm, sameSizes]
      rfl
    rw [visited]
  · refine ⟨boundEvolves, sameOffset, isForm, ?_, ?_, ?_⟩
    · intro unknown
      rw [known] at unknown
      cases unknown
    · intro other isOther
      rw [known] at isOther
      cases isOther
      exact resolves
    · exact ⟨bound, boundEvolves.group, boundEvolves.descriptor, sameSize,
        (grow_self _ _).symm⟩
  · have upgraded := bound.upgrade_evolves form
    have stillKnown := upgraded.resolved target known
    refine ⟨boundEvolves.trans upgraded, ?_, ?_, ?_, ?_, ?_⟩
    · refine Eq.trans ?_ sameOffset
      unfold Jump.upgrade
      split
      · rfl
      · cases form <;> rfl
    · rw [(Jump.forms_of_kind upgraded.kind).1, Jump.form_upgrade]
      split
      · exact isForm
      · exact decideForm_mem isForm decides
    · intro unknown
      rw [stillKnown] at unknown
      cases unknown
    · intro other isOther
      rw [stillKnown] at isOther
      cases isOther
      exact resolves_congr upgraded resolves
    · exact ⟨bound, boundEvolves.group, boundEvolves.descriptor, sameSize, rfl⟩

/-- In the layout of the pass, a visit replaces one jump. -/
theorem Advances.toLayout_record
    {sweep : Sweep}
    {layout : Layout}
    {jump : Jump}
    {visit : Visit}
    (advances : sweep.Advances layout jump visit)
    (labels : Array (Option GroupId))
    (pending : List Jump) :
    (visit.sweep.record visit.jump).toLayout labels pending =
      ((sweep.enter jump.group).toLayout labels (jump :: pending)).updateJump
        sweep.visited.size visit.jump (visit.jump.size - jump.size) := by
  obtain ⟨bound, group, descriptor, size, isSweep⟩ := advances.sweep
  have jumps :
      (visit.sweep.visited.push visit.jump ++ pending : Array Jump) =
        ((sweep.enter jump.group).visited ++ (jump :: pending)).setIfInBounds
          sweep.visited.size visit.jump := by
    rw [isSweep, grow_visited, enter_visited]
    apply Array.toList_inj.mp
    rw [Array.toList_appendList, Array.toList_setIfInBounds, Array.toList_appendList,
      Array.toList_push]
    simp
  have groups :
      visit.sweep.groups =
        (sweep.enter jump.group).groups.modify visit.jump.group.index
          (Group.grow · (visit.jump.size - jump.size)) := by
    rw [isSweep, grow_groups, group, size, advances.evolves.group]
  have descriptors :
      visit.sweep.descriptors =
        Layout.growAt (sweep.enter jump.group).descriptors visit.jump.descriptor
          (visit.jump.size - jump.size) := by
    rw [isSweep, grow_descriptors, descriptor, size, advances.evolves.descriptor]
  unfold toLayout record Layout.updateJump
  dsimp only
  rw [jumps, groups, descriptors]

/-- A visit keeps the layout of a pass well-formed and takes it to a later state. -/
theorem wellFormed_visit
    (setting : Setting)
    {sweep : Sweep}
    {pending : List Jump}
    {jump : Jump}
    (wellFormed : (sweep.toLayout setting.labels (jump :: pending)).WellFormed) :
    let visit := sweep.visit setting pending jump
    ((visit.sweep.record visit.jump).toLayout setting.labels pending).WellFormed ∧
      (sweep.toLayout setting.labels (jump :: pending)).Evolves
        ((visit.sweep.record visit.jump).toLayout setting.labels pending) := by
  intro visit
  have entered := wellFormed_enter wellFormed jump.group
  have advances : sweep.Advances _ jump visit := visit_advances wellFormed
  have isNext := (sweep.enter jump.group).getElem?_toLayout_jumps setting.labels jump pending
  rw [enter_visited] at isNext
  have holds := entered.holds _ jump isNext
  rw [advances.toLayout_record]
  constructor
  · refine entered.updateJump isNext advances.evolves.group advances.evolves.descriptor ?_ ?_
      advances.form advances.fresh advances.resolved
    · have grows := Jump.size_le_of_evolves advances.evolves holds.form
      omega
    · rw [advances.evolves.kind]
      exact holds.sound
  · exact (evolves_enter sweep setting.labels (jump :: pending) jump.group).trans
      (Layout.evolves_updateJump isNext advances.evolves (visit.jump.size - jump.size))

/-!
## Walks
-/

/--
What every visit that succeeds keeps, a walk keeps: it ends after the last jump,
or with the visit that fails.
-/
theorem walk_induction
    (setting : Setting)
    {motive : Sweep → List Jump → Prop}
    (step :
      ∀ sweep jump pending,
        motive sweep (jump :: pending) →
          (sweep.visit setting pending jump).failure = none →
            motive ((sweep.visit setting pending jump).sweep.record
              (sweep.visit setting pending jump).jump) pending)
    {jumps : List Jump}
    {sweep : Sweep}
    (start : motive sweep jumps) :
    (∃ final, motive final [] ∧ walk setting jumps sweep = (none, final.complete)) ∨
      ∃ failure before jump pending,
        motive before (jump :: pending) ∧
          (before.visit setting pending jump).failure = some failure ∧
            let stopped := (before.visit setting pending jump).sweep.record
              (before.visit setting pending jump).jump
            walk setting jumps sweep =
              (some failure, { stopped with visited := stopped.visited ++ pending }) := by
  induction jumps generalizing sweep with
  | nil =>
      exact Or.inl ⟨sweep, start, rfl⟩
  | cons jump pending inductionHypothesis =>
      rw [walk]
      cases fails : (sweep.visit setting pending jump).failure with
      | none =>
          exact inductionHypothesis (step sweep jump pending start fails)
      | some failure =>
          exact Or.inr ⟨failure, sweep, jump, pending, start, fails, rfl⟩

theorem toLayout_begin (layout : Layout) :
    (begin layout).toLayout layout.labels layout.jumps.toList = layout := by
  unfold toLayout begin
  have jumps : (#[] : Array Jump) ++ layout.jumps.toList = layout.jumps := by
    apply Array.toList_inj.mp
    rw [Array.toList_appendList]
    rfl
  rw [jumps]

theorem getElem?_complete_groups
    (sweep : Sweep)
    (place : Nat) :
    sweep.complete.groups[place]? =
      sweep.groups[place]?.map fun group =>
        if sweep.nextGroup ≤ place then group.shift sweep.growth else group := by
  show (shiftGroups _ _ _ _)[place]? = _
  rw [getElem?_shiftGroups]
  cases found : sweep.groups[place]? with
  | none =>
      rfl
  | some group =>
      obtain ⟨inside, -⟩ := Array.getElem?_eq_some_iff.mp found
      rw [Option.map_some, Option.map_some]
      by_cases behind : sweep.nextGroup ≤ place
      · rw [if_pos behind, if_pos (by omega)]
      · rw [if_neg behind, if_neg (by omega)]

/-- Completing a pass moves groups only. -/
theorem wellFormed_complete
    {sweep : Sweep}
    {labels : Array (Option GroupId)}
    (wellFormed : (sweep.toLayout labels []).WellFormed) :
    (sweep.complete.toLayout labels []).WellFormed ∧
      (sweep.toLayout labels []).Evolves (sweep.complete.toLayout labels []) := by
  have size : sweep.complete.groups.size = sweep.groups.size := size_shiftGroups ..
  constructor
  · have same : Layout.Pointwise Layout.SameRun sweep.groups sweep.complete.groups := by
      refine ⟨size, ?_⟩
      intro index old found
      rw [getElem?_complete_groups, found, Option.map_some]
      refine ⟨_, rfl, ?_⟩
      split
      · exact ⟨rfl, rfl, rfl⟩
      · exact ⟨rfl, rfl, rfl⟩
    exact wellFormed.regroup same
  · refine ⟨⟨size, ?_⟩, (Layout.Evolves.refl _).descriptors, (Layout.Evolves.refl _).jumps, rfl⟩
    intro index old found
    show ∃ new, sweep.complete.groups[index]? = some new ∧ _
    rw [getElem?_complete_groups, show sweep.groups[index]? = some old from found,
      Option.map_some]
    refine ⟨_, rfl, ?_⟩
    split
    · exact ⟨rfl, rfl, rfl⟩
    · exact ⟨rfl, rfl, rfl⟩

end Sweep

theorem runPass_of_completed
    {config : Config}
    {layout : Layout}
    {sweep : Sweep}
    (walked :
      Sweep.walk (.of config layout) layout.jumps.toList (.begin layout) = (none, sweep)) :
    (runPass config layout).result =
        (runPass config layout).layout.ifFits (.ok sweep.upgrades) ∧
      (runPass config layout).layout = sweep.toLayout layout.labels [] := by
  have jumps : sweep.visited ++ ([] : List Jump) = sweep.visited := by
    apply Array.toList_inj.mp
    rw [Array.toList_appendList, List.append_nil]
  unfold runPass Sweep.toLayout
  rw [walked, jumps]
  exact ⟨rfl, rfl⟩

theorem runPass_of_stopped
    {config : Config}
    {layout : Layout}
    {failure : Failure}
    {stopped : Sweep}
    {pending : List Jump}
    (walked :
      Sweep.walk (.of config layout) layout.jumps.toList (.begin layout) =
        (some failure, { stopped with visited := stopped.visited ++ pending })) :
    (runPass config layout).result =
        (runPass config layout).layout.ifFits (.error failure) ∧
      (runPass config layout).layout = stopped.toLayout layout.labels pending := by
  unfold runPass
  rw [walked]
  exact ⟨rfl, rfl⟩

/-- A pass that does not break leaves a layout that fits. -/
theorem fits_of_runPass
    {config : Config}
    {layout : Layout}
    (unbroken : (runPass config layout).result ≠ .error .broken) :
    (runPass config layout).layout.fits = true :=
  Layout.fits_of_ifFits unbroken

theorem fits_of_runPass_eq_ok
    {config : Config}
    {layout : Layout}
    {grown : Nat}
    (pass : (runPass config layout).result = .ok grown) :
    (runPass config layout).layout.fits = true := by
  refine fits_of_runPass ?_
  intro isBroken
  rw [pass] at isBroken
  cases isBroken

/-- A pass that has visited all jumps reports how many of them grew. -/
theorem upgrades_of_completed
    {config : Config}
    {layout : Layout}
    {sweep : Sweep}
    {grown : Nat}
    (walked :
      Sweep.walk (.of config layout) layout.jumps.toList (.begin layout) = (none, sweep))
    (succeeds : (runPass config layout).result = .ok grown) :
    sweep.upgrades = grown := by
  rw [(runPass_of_completed walked).1] at succeeds
  exact Except.ok.inj (Layout.ifFits_eq_ok_iff.mp succeeds).2

theorem ne_ok_of_stopped
    {config : Config}
    {layout : Layout}
    {failure : Failure}
    {stopped : Sweep}
    {pending : List Jump}
    (walked :
      Sweep.walk (.of config layout) layout.jumps.toList (.begin layout) =
        (some failure, { stopped with visited := stopped.visited ++ pending }))
    (grown : Nat) :
    (runPass config layout).result ≠ .ok grown := by
  intro succeeds
  rw [(runPass_of_stopped walked).1] at succeeds
  cases (Layout.ifFits_eq_ok_iff.mp succeeds).2

/-- The layout of a pass is a well-formed later state of where it began. -/
def Sweep.Continues
    (layout : Layout)
    (sweep : Sweep)
    (pending : List Jump) :
    Prop :=
  (sweep.toLayout layout.labels pending).WellFormed ∧
    layout.Evolves (sweep.toLayout layout.labels pending)

/-- Every pass, also one that fails, keeps a layout well-formed. -/
theorem wellFormed_runPass
    (config : Config)
    {layout : Layout}
    (wellFormed : layout.WellFormed) :
    (runPass config layout).layout.WellFormed ∧
      layout.Evolves (runPass config layout).layout := by
  have start : Sweep.Continues layout (.begin layout) layout.jumps.toList := by
    unfold Sweep.Continues
    rw [Sweep.toLayout_begin]
    exact ⟨wellFormed, Layout.Evolves.refl layout⟩
  have step :
      ∀ sweep jump pending,
        Sweep.Continues layout sweep (jump :: pending) →
          Sweep.Continues layout
            ((sweep.visit (.of config layout) pending jump).sweep.record
              (sweep.visit (.of config layout) pending jump).jump) pending := by
    intro sweep jump pending kept
    have visited := Sweep.wellFormed_visit (.of config layout) kept.1
    exact ⟨visited.1, kept.2.trans visited.2⟩
  rcases Sweep.walk_induction (.of config layout)
      (fun sweep jump pending kept _ => step sweep jump pending kept) start with
    ⟨final, kept, walked⟩ | ⟨failure, before, jump, pending, kept, -, walked⟩
  · rw [(runPass_of_completed walked).2]
    have completed := Sweep.wellFormed_complete kept.1
    exact ⟨completed.1, kept.2.trans completed.2⟩
  · rw [(runPass_of_stopped walked).2]
    exact step before jump pending kept

/-- What every pass keeps, relaxation keeps, whether it succeeds or fails. -/
theorem relaxWithin_induction
    {config : Config}
    {motive : Layout → Prop}
    (step : ∀ layout, motive layout → motive (runPass config layout).layout)
    (budget passes upgrades : Nat)
    (notices : Array Notice)
    (remaining : Nat)
    {layout : Layout}
    (start : motive layout) :
    motive (Layout.relaxWithin config budget passes upgrades notices remaining layout).layout := by
  induction remaining generalizing passes upgrades notices layout with
  | zero =>
      exact start
  | succ remaining inductionHypothesis =>
      have kept := step layout start
      rw [Layout.relaxWithin]
      dsimp only
      split
      · exact kept
      · split
        · exact kept
        · split
          · exact kept
          · exact inductionHypothesis _ _ _ kept

/-- Relaxation keeps a layout well-formed, whether it succeeds or fails. -/
theorem wellFormed_relaxWithin
    (config : Config)
    (budget passes upgrades : Nat)
    (notices : Array Notice)
    (remaining : Nat)
    {layout : Layout}
    (wellFormed : layout.WellFormed) :
    (Layout.relaxWithin config budget passes upgrades notices remaining layout).layout.WellFormed ∧
      layout.Evolves
        (Layout.relaxWithin config budget passes upgrades notices remaining layout).layout := by
  refine relaxWithin_induction
    (motive := fun later => later.WellFormed ∧ layout.Evolves later)
    ?_ budget passes upgrades notices remaining ⟨wellFormed, Layout.Evolves.refl layout⟩
  rintro later ⟨kept, evolves⟩
  obtain ⟨keptLater, evolvesLater⟩ := wellFormed_runPass config kept
  exact ⟨keptLater, evolves.trans evolvesLater⟩

end Relaxation

end Rv64Codegen
