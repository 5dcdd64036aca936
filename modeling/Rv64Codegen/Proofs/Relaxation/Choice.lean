import Rv64Codegen.Proofs.Relaxation.Passes

namespace Rv64Codegen

/-!
# What a visit decides

A visit that succeeds moves its jump to the shortest of the forms that are long
enough for the jump and cover the distance to its target.  The distance is the one
in the layout in which the jump has grown already, and the margin on top of it is
a reserve for every short jump on the way.  Whatever is said about passes that
succeed is said about such visits, and put together by one induction.
-/

/-- The shortest form that a jump may have after a visit. -/
def Jump.wanted (jump : Jump) : Form :=
  if jump.keepLong then .far else jump.form

theorem Jump.rank_form_le_wanted (jump : Jump) :
    jump.form.rank ≤ jump.wanted.rank := by
  unfold wanted
  split
  · cases jump.form <;> decide
  · exact Nat.le_refl _

/-- Two jumps of the same kind measure their forms from the same words. -/
theorem Jump.anchor_of_kind
    {first second : Jump}
    (same : second.kind = first.kind) :
    second.anchor = first.anchor := by
  have conditional : second.isConditional = first.isConditional := by
    unfold isConditional
    rw [same]
  funext form
  cases form <;> simp only [anchor, conditional]

namespace Layout

/-- The place among the descriptors that a jump goes to. -/
def GoesTo
    (layout : Layout)
    (jump : Jump)
    (place : Nat) :
    Prop :=
  ∃ resolved, layout.Resolves jump resolved ∧ layout.Aims jump place resolved

/-- A jump goes to one place at most. -/
theorem GoesTo.unique
    {layout : Layout}
    {jump : Jump}
    {first second : Nat}
    (goesFirst : layout.GoesTo jump first)
    (goesSecond : layout.GoesTo jump second) :
    first = second := by
  obtain ⟨resolved, resolves, aims⟩ := goesFirst
  obtain ⟨again, resolvesAgain, aimsAgain⟩ := goesSecond
  cases resolved with
  | group target =>
      obtain ⟨label, asked, isBound⟩ := resolves
      obtain ⟨group, found, rfl⟩ := aims
      cases again with
      | group other =>
          obtain ⟨otherLabel, askedOther, isBoundOther⟩ := resolvesAgain
          obtain ⟨otherGroup, foundOther, rfl⟩ := aimsAgain
          cases asked.symm.trans askedOther
          cases isBound.symm.trans isBoundOther
          cases found.symm.trans foundOther
          rfl
      | inGroup position =>
          obtain ⟨count, own, askedRelative, -⟩ := resolvesAgain
          cases asked.symm.trans askedRelative
  | inGroup position =>
      obtain ⟨count, own, asked, found, exact, -⟩ := resolves
      obtain ⟨aimed, foundAimed, rfl⟩ := aims
      cases again with
      | group other =>
          obtain ⟨label, askedLabel, -⟩ := resolvesAgain
          cases asked.symm.trans askedLabel
      | inGroup other =>
          obtain ⟨otherCount, otherOwn, askedOther, foundOther, exactOther, -⟩ := resolvesAgain
          obtain ⟨otherAimed, foundOtherAimed, rfl⟩ := aimsAgain
          cases asked.symm.trans askedOther
          cases found.symm.trans foundAimed
          cases found.symm.trans foundOther
          cases found.symm.trans foundOtherAimed
          omega

/-- A jump goes to the same place when groups and labels only gain. -/
theorem GoesTo.mono
    {before after : Layout}
    {old new : Jump}
    {place : Nat}
    (goes : before.GoesTo old place)
    (target : new.target = old.target)
    (group : new.group = old.group)
    (descriptor : new.descriptor = old.descriptor)
    (groups :
      ∀ (index : Nat) (group : Group),
        before.groups[index]? = some group →
          ∃ later, after.groups[index]? = some later ∧
            later.first = group.first ∧ group.count ≤ later.count)
    (labels :
      ∀ label group,
        before.labelGroup? label = some group → after.labelGroup? label = some group) :
    after.GoesTo new place := by
  obtain ⟨resolved, resolves, aims⟩ := goes
  refine ⟨resolved, ?_⟩
  cases resolved with
  | group aim =>
      obtain ⟨label, asked, isBound⟩ := resolves
      obtain ⟨aimed, found, rfl⟩ := aims
      obtain ⟨later, foundLater, first, -⟩ := groups _ aimed found
      exact ⟨⟨label, target.trans asked, labels label aim isBound⟩, later, foundLater,
        first.symm⟩
  | inGroup position =>
      obtain ⟨count, own, asked, found, exact, inside⟩ := resolves
      obtain ⟨aimed, foundAimed, rfl⟩ := aims
      cases found.symm.trans foundAimed
      obtain ⟨later, foundLater, first, more⟩ := groups _ own found
      rw [← group] at foundLater
      rw [← descriptor, ← first] at exact
      exact ⟨⟨count, later, target.trans asked, foundLater, exact, Nat.le_trans inside more⟩,
        later, foundLater, by rw [first]⟩

/-- The place that a jump goes to is the same in a later state of the program. -/
theorem goesTo_iff_of_evolves
    {before after : Layout}
    {old new : Jump}
    (layouts : before.Evolves after)
    (jumps : old.Evolves new)
    (place : Nat) :
    after.GoesTo new place ↔ before.GoesTo old place := by
  have labels (label : LabelId) : after.labelGroup? label = before.labelGroup? label := by
    unfold labelGroup?
    rw [layouts.labels]
  constructor
  · intro goes
    refine goes.mono jumps.target.symm jumps.group.symm jumps.descriptor.symm ?_
      fun label group isBound => (labels label).symm.trans isBound
    intro index group found
    obtain ⟨earlier, foundEarlier, first, count, -⟩ := layouts.groups.backward found
    exact ⟨earlier, foundEarlier, first.symm, Nat.le_of_eq count⟩
  · intro goes
    refine goes.mono jumps.target jumps.group jumps.descriptor ?_
      fun label group isBound => (labels label).trans isBound
    intro index group found
    obtain ⟨later, foundLater, first, count, -⟩ := layouts.groups.forward index group found
    exact ⟨later, foundLater, first, Nat.le_of_eq count.symm⟩

/-!
## Short jumps on the way
-/

/-- The number of short jumps that stand behind one descriptor and in front of another. -/
def shortBetween
    (jumps : List Jump)
    (first last : Nat) :
    Nat :=
  jumps.countP fun jump =>
    decide (first < jump.descriptor ∧ jump.descriptor < last) && !jump.isLong

theorem shortBetween_append
    (front back : List Jump)
    (first last : Nat) :
    shortBetween (front ++ back) first last =
      shortBetween front first last + shortBetween back first last :=
  List.countP_append ..

theorem shortBetween_cons
    (jump : Jump)
    (rest : List Jump)
    (first last : Nat) :
    shortBetween (jump :: rest) first last =
      shortBetween rest first last +
        if (first < jump.descriptor ∧ jump.descriptor < last) ∧ jump.isLong = false
          then 1 else 0 := by
  simp [shortBetween, List.countP_cons]

/-- Jumps outside of the way do not count. -/
theorem shortBetween_eq_zero
    {jumps : List Jump}
    {first last : Nat}
    (outside : ∀ jump ∈ jumps, jump.descriptor ≤ first ∨ last ≤ jump.descriptor) :
    shortBetween jumps first last = 0 := by
  rw [shortBetween, List.countP_eq_zero]
  intro jump member counted
  simp only [Bool.and_eq_true, decide_eq_true_eq] at counted
  rcases outside jump member with before | behind
  · omega
  · omega

/-- Jumps in program order are counted up to the first one that is not on the way. -/
theorem shortBetween_eq_takeWhile
    {jumps : List Jump}
    {first : Nat}
    (last : Nat)
    (ordered : jumps.Pairwise fun early late => early.descriptor < late.descriptor)
    (behind : ∀ jump ∈ jumps, first < jump.descriptor) :
    shortBetween jumps first last =
      (jumps.takeWhile fun jump => decide (jump.descriptor < last)).countP
        fun jump => !jump.isLong := by
  induction jumps with
  | nil =>
      rfl
  | cons jump rest inductionHypothesis =>
      rw [List.pairwise_cons] at ordered
      by_cases onTheWay : jump.descriptor < last
      · have isBehind := behind jump (by simp)
        have counted :=
          inductionHypothesis ordered.2 fun other member => behind other (by simp [member])
        rw [shortBetween_cons, counted, List.takeWhile_cons_of_pos (by simpa using onTheWay),
          List.countP_cons]
        simp [isBehind, onTheWay]
      · -- Jumps are in program order, so no later one is on the way either.
        rw [List.takeWhile_cons_of_neg (by simpa using onTheWay), List.countP_nil]
        apply shortBetween_eq_zero
        intro other member
        rcases List.mem_cons.mp member with rfl | isLater
        · exact Or.inr (Nat.le_of_not_lt onTheWay)
        · have later := ordered.1 other isLater
          omega

theorem WellFormed.pairwise
    {layout : Layout}
    (wellFormed : layout.WellFormed) :
    layout.jumps.toList.Pairwise fun early late => early.descriptor < late.descriptor := by
  rw [List.pairwise_iff_getElem]
  intro left right leftInside rightInside order
  refine wellFormed.ordered left right _ _ order ?_ ?_
  · rw [← Array.getElem?_toList, List.getElem?_eq_getElem leftInside]
  · rw [← Array.getElem?_toList, List.getElem?_eq_getElem rightInside]

/-- Only the jumps behind a jump can be on its way. -/
theorem WellFormed.shortBetween_eq
    {layout : Layout}
    (wellFormed : layout.WellFormed)
    {front pending : List Jump}
    {jump : Jump}
    (split : layout.jumps.toList = front ++ jump :: pending)
    (last : Nat) :
    shortBetween layout.jumps.toList jump.descriptor last =
        shortBetween pending jump.descriptor last ∧
      shortBetween pending jump.descriptor last =
        (pending.takeWhile fun other => decide (other.descriptor < last)).countP
          fun other => !other.isLong := by
  have ordered := wellFormed.pairwise
  rw [split, List.pairwise_append, List.pairwise_cons] at ordered
  obtain ⟨-, ⟨behind, later⟩, inFront⟩ := ordered
  refine ⟨?_, shortBetween_eq_takeWhile last later behind⟩
  have front : shortBetween front jump.descriptor last = 0 := by
    apply shortBetween_eq_zero
    intro other member
    exact Or.inl (Nat.le_of_lt (inFront other member jump (by simp)))
  rw [split, shortBetween_append, front, shortBetween_cons, if_neg (by omega)]
  omega

/-!
## Forms that cover a distance
-/

/--
A form covers the distance to a place in the layout in which the jump has grown to
it, with the margin for the short jumps on the way.
-/
def Covers
    (layout : Layout)
    (reserve : Nat)
    (jump : Jump)
    (place : Nat)
    (form : Form) :
    Prop :=
  Relaxation.Reaches jump form
    (spanTo
      (growAt layout.descriptors jump.descriptor (jump.sizeOf form - jump.size))
      jump place form)
    (reserve * shortBetween layout.jumps.toList jump.descriptor place)

/-- The current form is judged in the layout as it is. -/
theorem covers_form_iff
    {layout : Layout}
    {reserve : Nat}
    {jump : Jump}
    {place : Nat} :
    layout.Covers reserve jump place jump.form ↔
      Relaxation.Reaches jump jump.form
        (spanTo layout.descriptors jump place jump.form)
        (reserve * shortBetween layout.jumps.toList jump.descriptor place) := by
  rw [Covers, Jump.size, Nat.sub_self, growAt_zero]

/-- One jump of a layout has moved on, and its descriptor has grown with it. -/
structure Regrows
    (before after : Layout)
    (front : List Jump)
    (old new : Jump)
    (pending : List Jump) :
    Prop where
  wellFormed : before.WellFormed
  laterWellFormed : after.WellFormed
  evolves : before.Evolves after
  jump : old.Evolves new
  isBefore : before.jumps.toList = front ++ old :: pending
  isAfter : after.jumps.toList = front ++ new :: pending
  descriptors :
    after.descriptors = growAt before.descriptors old.descriptor (new.size - old.size)

end Layout

namespace Relaxation

open Layout (startOf spanTo growAt)

/-- Only the kind of a jump matters for what its forms cover. -/
theorem reaches_of_kind
    {first second : Jump}
    (same : second.kind = first.kind)
    {form : Form}
    {distance : Int}
    {margin : Nat} :
    Reaches second form distance margin ↔ Reaches first form distance margin := by
  have conditional : second.isConditional = first.isConditional := by
    unfold Jump.isConditional
    rw [same]
  cases form with
  | short =>
      unfold Reaches
      dsimp only
      rw [conditional]
  | near =>
      exact Iff.rfl
  | far =>
      exact Iff.rfl

/-- The forms that a jump may take are listed from the shortest to the longest. -/
theorem pairwise_candidates
    (jump : Jump)
    (wanted : Form) :
    (candidates jump wanted).Pairwise fun shorter longer => shorter.rank < longer.rank := by
  refine List.Pairwise.filter _ ?_
  unfold Jump.forms
  split <;> decide

/-- The form that is found first is the shortest. -/
theorem rank_le_of_find?
    {forms : List Form}
    {suits : Form → Bool}
    {chosen other : Form}
    (ordered : forms.Pairwise fun shorter longer => shorter.rank < longer.rank)
    (found : forms.find? suits = some chosen)
    (member : other ∈ forms)
    (suitsOther : suits other = true) :
    chosen.rank ≤ other.rank := by
  obtain ⟨-, front, back, rfl, skipped⟩ := List.find?_eq_some_iff_append.mp found
  rw [List.pairwise_append, List.pairwise_cons] at ordered
  rcases List.mem_append.mp member with inFront | behind
  · have notOther := skipped other inFront
    simp [suitsOther] at notOther
  · rcases List.mem_cons.mp behind with rfl | isLater
    · exact Nat.le_refl _
    · exact Nat.le_of_lt (ordered.2.1.1 other isLater)

namespace Sweep

/--
The form that is decided on is one of the jump's, long enough, and covers the
distance if that is checked; no shorter form is like that.
-/
theorem decideForm_least
    {sweep : Sweep}
    {setting : Setting}
    {pending : List Jump}
    {own : Group}
    {jump : Jump}
    {target : Resolved}
    {aim : Aim}
    {form : Form}
    (isForm : jump.form ∈ jump.forms)
    (isAim : (sweep.view setting pending).aim? jump own target = some aim)
    (decides : sweep.decideForm setting pending own jump target = .ok form) :
    let suits (form : Form) : Prop :=
      form ∈ jump.forms ∧ jump.wanted.rank ≤ form.rank ∧
        (setting.checksRange = true →
          Reaches jump form (distance jump own aim form)
            ((sweep.view setting pending).margin aim))
    suits form ∧ ∀ other, suits other → form.rank ≤ other.rank := by
  intro suits
  have member := decideForm_mem isForm decides
  unfold decideForm at decides
  dsimp only at decides
  split at decides
  · rename_i checks
    rw [isAim] at decides
    dsimp only at decides
    rw [Failure.ofRefusal_eq_ok_iff, chooseForm] at decides
    split at decides
    · rename_i chosen isChosen
      cases decides
      have longEnough := (List.mem_filter.mp (List.mem_of_find?_eq_some isChosen)).2
      have reaches := List.find?_some isChosen
      refine ⟨⟨member, of_decide_eq_true longEnough, fun _ => of_decide_eq_true reaches⟩, ?_⟩
      rintro other ⟨isOther, otherLongEnough, otherReaches⟩
      exact rank_le_of_find? (pairwise_candidates jump jump.wanted) isChosen
        (List.mem_filter.mpr ⟨isOther, decide_eq_true otherLongEnough⟩)
        (decide_eq_true (otherReaches checks))
    · cases decides
  · rename_i unchecked
    cases decides
    exact ⟨⟨member, Nat.le_refl _, fun checks => absurd checks unchecked⟩,
      fun other suitsOther => suitsOther.2.1⟩

/-- The margin of a visit counts the short jumps on the way. -/
theorem margin_eq
    {sweep : Sweep}
    {setting : Setting}
    {pending : List Jump}
    {jump bound : Jump}
    (wellFormed : (sweep.toLayout setting.labels (jump :: pending)).WellFormed)
    (sameDescriptor : bound.descriptor = jump.descriptor)
    (descriptors : Array Descriptor)
    (place : Nat) :
    (sweep.view setting pending).margin (Aim.at descriptors bound place) =
      setting.reserve *
        Layout.shortBetween (sweep.toLayout setting.labels (jump :: pending)).jumps.toList
          jump.descriptor place := by
  have split :
      (sweep.toLayout setting.labels (jump :: pending)).jumps.toList =
        sweep.visited.toList ++ jump :: pending :=
    Array.toList_appendList ..
  obtain ⟨pendingOnly, counted⟩ := wellFormed.shortBetween_eq split place
  unfold View.margin Aim.at
  dsimp only
  rw [pendingOnly, sameDescriptor]
  by_cases forward : jump.descriptor < place
  · rw [if_pos forward, counted]
    rfl
  · rw [if_neg forward, Layout.shortBetween_eq_zero, Nat.mul_zero]
    intro other _
    omega

/-- The distance of a visit is the one in the layout in which the jump has grown. -/
theorem Stands.distance_eq_grown
    {sweep : Sweep}
    {labels : Array (Option GroupId)}
    {rest : List Jump}
    {own : Group}
    {jump : Jump}
    (stands : sweep.Stands labels rest own jump)
    (place : Nat)
    {form : Form}
    (larger : jump.size ≤ jump.sizeOf form) :
    distance jump own (Aim.at sweep.descriptors jump place) form =
      spanTo (growAt sweep.descriptors jump.descriptor (jump.sizeOf form - jump.size))
        jump place form := by
  have inside := stands.descriptor_lt_size
  rw [stands.distance_eq]
  unfold spanTo
  rw [Layout.startOf_growAt_of_le _ inside (Nat.le_refl _)]
  by_cases forward : jump.descriptor < place
  · rw [if_pos forward, Layout.startOf_growAt_of_lt _ inside forward]
    omega
  · rw [if_neg forward, Layout.startOf_growAt_of_le _ inside (Nat.le_of_not_lt forward)]
    omega

/-!
## Passes that succeed
-/

/-- Between two visits of a pass: the pass has a layout, and the rest of the jumps to visit. -/
structure Underway
    (layout : Layout)
    (sweep : Sweep)
    (pending : List Jump) :
    Prop where
  wellFormed : (sweep.toLayout layout.labels pending).WellFormed
  evolves : layout.Evolves (sweep.toLayout layout.labels pending)
  located : sweep.Located pending
  rest : pending <:+ layout.jumps.toList

theorem underway_begin
    {layout : Layout}
    (wellFormed : layout.WellFormed)
    (located : layout.Located) :
    (begin layout).Underway layout layout.jumps.toList where
  wellFormed := by
    rw [toLayout_begin]
    exact wellFormed
  evolves := by
    rw [toLayout_begin]
    exact Layout.Evolves.refl layout
  located := located_begin located
  rest := List.suffix_refl _

theorem Underway.visit
    (config : Config)
    {layout : Layout}
    {sweep : Sweep}
    {jump : Jump}
    {pending : List Jump}
    (underway : sweep.Underway layout (jump :: pending)) :
    let visit := sweep.visit (.of config layout) pending jump
    (visit.sweep.record visit.jump).Underway layout pending := by
  intro visit
  obtain ⟨wellFormed, evolves⟩ := wellFormed_visit (.of config layout) underway.wellFormed
  exact ⟨wellFormed, underway.evolves.trans evolves,
    underway.located.visit (.of config layout) underway.wellFormed,
    (List.suffix_cons jump pending).trans underway.rest⟩

/-- In the layout of a pass, a visit replaces its jump and lets the descriptor grow. -/
theorem Underway.regrows
    (config : Config)
    {layout : Layout}
    {sweep : Sweep}
    {jump : Jump}
    {pending : List Jump}
    (underway : sweep.Underway layout (jump :: pending)) :
    let visit := sweep.visit (.of config layout) pending jump
    (sweep.toLayout layout.labels (jump :: pending)).Regrows
      ((visit.sweep.record visit.jump).toLayout layout.labels pending)
      sweep.visited.toList jump visit.jump pending := by
  intro visit
  have advances : sweep.Advances _ jump visit := visit_advances underway.wellFormed
  have passes := advances.passes
  obtain ⟨laterWellFormed, evolves⟩ := wellFormed_visit (.of config layout) underway.wellFormed
  refine ⟨underway.wellFormed, laterWellFormed, evolves, advances.evolves,
    Array.toList_appendList .., ?_, ?_⟩
  · show ((visit.sweep.record visit.jump).visited ++ pending).toList = _
    rw [passes.visited, enter_visited, Array.toList_appendList, Array.toList_push,
      List.append_assoc]
    rfl
  · show (visit.sweep.record visit.jump).descriptors = growAt sweep.descriptors _ _
    rw [passes.descriptors, enter_descriptors]

theorem Underway.visited_visit
    (config : Config)
    {layout : Layout}
    {sweep : Sweep}
    {jump : Jump}
    {pending : List Jump}
    (underway : sweep.Underway layout (jump :: pending)) :
    let visit := sweep.visit (.of config layout) pending jump
    (visit.sweep.record visit.jump).visited = sweep.visited.push visit.jump := by
  intro visit
  have advances : sweep.Advances _ jump visit := visit_advances underway.wellFormed
  rw [advances.passes.visited, enter_visited]

/-- In the jump list of a pass, a visit replaces one entry. -/
theorem Underway.jumps_visit
    (config : Config)
    {layout : Layout}
    {sweep : Sweep}
    {jump : Jump}
    {pending : List Jump}
    (underway : sweep.Underway layout (jump :: pending)) :
    let visit := sweep.visit (.of config layout) pending jump
    ((visit.sweep.record visit.jump).toLayout layout.labels pending).jumps =
      (sweep.toLayout layout.labels (jump :: pending)).jumps.setIfInBounds
        sweep.visited.size visit.jump := by
  intro visit
  have advances : sweep.Advances _ jump visit := visit_advances underway.wellFormed
  rw [advances.toLayout_record]
  show ((sweep.enter jump.group).visited ++ (jump :: pending)).setIfInBounds _ _ = _
  rw [enter_visited]
  rfl

/-- A visit counts as an upgrade when its jump has grown. -/
theorem Underway.upgrades_visit
    (config : Config)
    {layout : Layout}
    {sweep : Sweep}
    {jump : Jump}
    {pending : List Jump}
    (underway : sweep.Underway layout (jump :: pending)) :
    let visit := sweep.visit (.of config layout) pending jump
    (visit.sweep.record visit.jump).upgrades =
      if visit.jump.size - jump.size = 0 then sweep.upgrades else sweep.upgrades + 1 := by
  intro visit
  have advances : sweep.Advances _ jump visit := visit_advances underway.wellFormed
  obtain ⟨bound, -, -, sameSize, isSweep⟩ := advances.sweep
  show visit.sweep.upgrades = _
  rw [isSweep, grow_upgrades, sameSize, enter_upgrades]

/-- What a visit checks of a form is whether the form covers the distance. -/
theorem Underway.reaches_iff_covers
    {config : Config}
    {layout : Layout}
    {sweep : Sweep}
    {jump bound : Jump}
    {pending : List Jump}
    {own : Group}
    (underway : sweep.Underway layout (jump :: pending))
    (stands : (sweep.enter jump.group).Stands layout.labels (jump :: pending) own bound)
    (evolves : jump.Evolves bound)
    (sameForm : bound.form = jump.form)
    (place : Nat)
    {form : Form}
    (larger : jump.size ≤ jump.sizeOf form) :
    let aim := Aim.at (sweep.enter jump.group).descriptors bound place
    Reaches bound form (distance bound own aim form)
        (((sweep.enter jump.group).view (.of config layout) pending).margin aim) ↔
      (sweep.toLayout layout.labels (jump :: pending)).Covers config.branchGrowthReserve
        jump place form := by
  intro aim
  have entered := wellFormed_enter underway.wellFormed jump.group
  obtain ⟨-, sameSizes⟩ := Jump.forms_of_kind evolves.kind
  have sameSize : bound.size = jump.size := by
    rw [Jump.size, sameForm, sameSizes]
    rfl
  have sameMargin :=
    margin_eq (show (toLayout _ (Setting.of config layout).labels _).WellFormed from entered)
      evolves.descriptor (sweep.enter jump.group).descriptors place
  have sameSpan :
      spanTo (growAt sweep.descriptors jump.descriptor (jump.sizeOf form - jump.size))
          bound place form =
        spanTo (growAt sweep.descriptors jump.descriptor (jump.sizeOf form - jump.size))
          jump place form := by
    unfold spanTo
    rw [evolves.descriptor, Jump.anchor_of_kind evolves.kind]
  rw [stands.distance_eq_grown place (by rw [sameSize, sameSizes]; exact larger), sameMargin,
    reaches_of_kind evolves.kind, sameSize, sameSizes, evolves.descriptor, enter_descriptors,
    sameSpan]
  unfold toLayout
  rw [enter_visited]
  exact Iff.rfl

/--
A visit that succeeds binds its jump to a place.  The form that the jump gets is
long enough, it covers the distance if that is checked, and it is not longer than
any other form of which the same is true.
-/
theorem Underway.visit_decides
    {config : Config}
    {layout : Layout}
    {sweep : Sweep}
    {jump : Jump}
    {pending : List Jump}
    (underway : sweep.Underway layout (jump :: pending))
    (succeeds : (sweep.visit (.of config layout) pending jump).failure = none) :
    let before := sweep.toLayout layout.labels (jump :: pending)
    let chosen := (sweep.visit (.of config layout) pending jump).jump.form
    let suits (place : Nat) (form : Form) : Prop :=
      form ∈ jump.forms ∧ jump.wanted.rank ≤ form.rank ∧
        (config.smallFunctionBytes < layout.codeSize →
          before.Covers config.branchGrowthReserve jump place form)
    ∃ place,
      before.GoesTo jump place ∧ suits place chosen ∧
        ∀ other, suits place other → chosen.rank ≤ other.rank := by
  intro before chosen suits
  have wellFormed : before.WellFormed := underway.wellFormed
  have entered := wellFormed_enter wellFormed jump.group
  have isNext := (sweep.enter jump.group).getElem?_toLayout_jumps layout.labels jump pending
  obtain ⟨-, ⟨own, found, -⟩, -, isForm, -⟩ := entered.holds _ jump isNext
  obtain ⟨target, bound, form, binds, decides, visited⟩ := visit_of_succeeds found succeeds
  have stands := underway.located.stands wellFormed found binds
  obtain ⟨evolves, sameForm, -, -, resolves⟩ := bind_moved wellFormed found binds
  obtain ⟨sameForms, -⟩ := Jump.forms_of_kind evolves.kind
  obtain ⟨place, aims, -⟩ := entered.exists_aims resolves
  have goes : before.GoesTo jump place :=
    (Layout.goesTo_iff_of_evolves (sweep.evolves_enter _ _ jump.group) evolves place).mp
      ⟨target, resolves, aims⟩
  have larger (other : Form) (longEnough : jump.wanted.rank ≤ other.rank) :
      jump.size ≤ jump.sizeOf other :=
    Jump.sizeOf_le_of_rank_le isForm (Nat.le_trans jump.rank_form_le_wanted longEnough)
  have isAim := stands.aim?_eq (.of config layout) pending aims
  have isBoundForm : bound.form ∈ bound.forms := by
    rw [sameForm, sameForms]
    exact isForm
  obtain ⟨⟨member, longEnough, covers⟩, least⟩ := decideForm_least isBoundForm isAim decides
  rw [sameForms] at member least
  have sameWanted : bound.wanted = jump.wanted := by
    unfold Jump.wanted
    rw [evolves.keepLong, sameForm]
  rw [sameWanted] at longEnough least
  -- The upgrade keeps the old form only where the chosen one is not longer.
  have isChosen : chosen = form := by
    have longer := Nat.le_trans jump.rank_form_le_wanted longEnough
    show (sweep.visit (.of config layout) pending jump).jump.form = form
    rw [visited, Jump.form_upgrade, sameForm]
    split
    · rename_i notLonger
      exact Jump.rank_injective (Nat.le_antisymm longer notLonger)
    · rfl
  rw [isChosen]
  refine ⟨place, goes, ⟨member, longEnough, fun checked => ?_⟩, ?_⟩
  · exact (underway.reaches_iff_covers stands evolves sameForm place
      (larger form longEnough)).mp (covers (decide_eq_true checked))
  · rintro other ⟨otherMember, otherLongEnough, otherCovers⟩
    exact least other ⟨otherMember, otherLongEnough, fun checked =>
      (underway.reaches_iff_covers stands evolves sameForm place
        (larger other otherLongEnough)).mpr (otherCovers (of_decide_eq_true checked))⟩

theorem toLayout_nil_jumps
    (sweep : Sweep)
    (labels : Array (Option GroupId)) :
    (sweep.toLayout labels []).jumps = sweep.visited := by
  apply Array.toList_inj.mp
  show (sweep.visited ++ ([] : List Jump)).toList = _
  rw [Array.toList_appendList, List.append_nil]

/-- A pass that has visited all jumps puts the rest of the groups in place, and no more. -/
theorem Underway.complete
    {layout : Layout}
    {sweep : Sweep}
    (underway : sweep.Underway layout []) :
    let after := sweep.complete.toLayout layout.labels []
    after.WellFormed ∧ after.Located ∧ layout.Evolves after ∧
      (sweep.toLayout layout.labels []).Evolves after ∧
        after.jumps = sweep.visited ∧ after.descriptors = sweep.descriptors := by
  intro after
  obtain ⟨wellFormed, evolves⟩ := wellFormed_complete underway.wellFormed
  exact ⟨wellFormed, underway.located.complete layout.labels, underway.evolves.trans evolves,
    evolves, sweep.complete.toLayout_nil_jumps layout.labels, rfl⟩

end Sweep

/-- What every visit that succeeds keeps, a pass that succeeds keeps. -/
theorem runPass_induction
    {config : Config}
    {layout : Layout}
    {grown : Nat}
    (wellFormed : layout.WellFormed)
    (located : layout.Located)
    {motive : Sweep → List Jump → Prop}
    (start : motive (.begin layout) layout.jumps.toList)
    (step :
      ∀ sweep jump pending,
        sweep.Underway layout (jump :: pending) →
          motive sweep (jump :: pending) →
            (sweep.visit (.of config layout) pending jump).failure = none →
              motive ((sweep.visit (.of config layout) pending jump).sweep.record
                (sweep.visit (.of config layout) pending jump).jump) pending)
    (succeeds : (runPass config layout).result = .ok grown) :
    ∃ final : Sweep,
      final.Underway layout [] ∧ motive final [] ∧ grown = final.upgrades ∧
        (runPass config layout).layout = final.complete.toLayout layout.labels [] := by
  rcases Sweep.walk_induction (.of config layout)
      (motive := fun sweep pending => sweep.Underway layout pending ∧ motive sweep pending)
      (fun sweep jump pending both visited =>
        ⟨both.1.visit config, step sweep jump pending both.1 both.2 visited⟩)
      ⟨Sweep.underway_begin wellFormed located, start⟩ with
    ⟨final, ⟨underway, kept⟩, walked⟩ | ⟨failure, _, _, _, _, _, walked⟩
  · exact ⟨final, underway, kept, (upgrades_of_completed walked succeeds).symm,
      (runPass_of_completed walked).2⟩
  · exact absurd succeeds (ne_ok_of_stopped walked _)

/-- What holds of every jump that a visit leaves holds of all jumps after a pass. -/
theorem forall_runPass
    {config : Config}
    {layout : Layout}
    {grown : Nat}
    (wellFormed : layout.WellFormed)
    (located : layout.Located)
    {holds : Jump → Prop}
    (each :
      ∀ (sweep : Sweep) (jump : Jump) (pending : List Jump),
        sweep.Underway layout (jump :: pending) →
          (sweep.visit (.of config layout) pending jump).failure = none →
            holds (sweep.visit (.of config layout) pending jump).jump)
    (succeeds : (runPass config layout).result = .ok grown) :
    ∀ jump ∈ (runPass config layout).layout.jumps, holds jump := by
  obtain ⟨final, underway, visited, -, after⟩ :=
    runPass_induction wellFormed located
      (motive := fun sweep _ => ∀ jump ∈ sweep.visited, holds jump)
      (fun jump member => absurd member (Array.not_mem_empty jump))
      (by
        intro sweep jump pending underway visited succeedsHere other member
        rw [underway.visited_visit config, Array.mem_push] at member
        rcases member with earlier | rfl
        · exact visited other earlier
        · exact each sweep jump pending underway succeedsHere)
      succeeds
  obtain ⟨-, -, -, -, jumps, -⟩ := underway.complete
  rw [after, jumps]
  exact visited

/-- A pass that succeeds leaves everything in place. -/
theorem located_runPass
    {config : Config}
    {layout : Layout}
    {grown : Nat}
    (wellFormed : layout.WellFormed)
    (located : layout.Located)
    (succeeds : (runPass config layout).result = .ok grown) :
    (runPass config layout).layout.Located := by
  obtain ⟨final, underway, -, -, after⟩ :=
    runPass_induction wellFormed located (motive := fun _ _ => True) trivial
      (fun _ _ _ _ _ _ => trivial) succeeds
  rw [after]
  exact underway.complete.2.1

end Relaxation

end Rv64Codegen
