import Rv64Codegen.Proofs.Relaxation.Reach

namespace Rv64Codegen

/-!
# What a pass achieves

A pass over a layout with everything in place fails only at a jump whose target
cannot be found.  Otherwise everything is in place again, every jump that has
grown has moved to a longer form, and if none has grown then all jumps reach
their targets.
-/

namespace Layout

/-- A jump has no target, and relaxation is refused for that cause. -/
def Misses
    (layout : Layout)
    (jump : Jump)
    (failure : Failure) :
    Prop :=
  match jump.target with
  | .label label =>
      layout.labelGroup? label = none ∧ failure = .refused (.unresolvedTarget label)
  | .relative count =>
      ∃ own,
        layout.groups[jump.group.index]? = some own ∧
          ¬ (0 ≤ (jump.descriptor - own.first : Nat) + 1 + count ∧
            (jump.descriptor - own.first : Nat) + 1 + count ≤ (own.count : Int)) ∧
            failure = .refused
              (.relativeTargetOutOfGroup jump.group (jump.descriptor - own.first) count)

/-- A target that is missing in a later state is missing from the start. -/
theorem Misses.of_evolves
    {before after : Layout}
    {old new : Jump}
    {failure : Failure}
    (misses : after.Misses new failure)
    (layouts : before.Evolves after)
    (jumps : old.Evolves new) :
    before.Misses old failure := by
  unfold Misses at misses ⊢
  rw [jumps.target, jumps.descriptor, jumps.group] at misses
  cases isTarget : old.target with
  | label label =>
      rw [isTarget] at misses
      unfold labelGroup? at misses ⊢
      rw [layouts.labels] at misses
      exact misses
  | relative count =>
      rw [isTarget] at misses
      obtain ⟨own, found, outside, isFailure⟩ := misses
      obtain ⟨oldOwn, foundOld, first, sameCount, -⟩ := layouts.groups.backward found
      rw [first] at outside isFailure
      rw [sameCount] at outside
      exact ⟨oldOwn, foundOld, outside, isFailure⟩

/-!
## Bounds on sizes
-/

/-- No later state of a layout outgrows the reach of the far form. -/
def Confined (layout : Layout) : Prop :=
  ∀ later : Layout,
    later.WellFormed → layout.Evolves later →
      startOf later.descriptors later.descriptors.size ≤ 0x40000000

theorem Confined.of_evolves
    {before after : Layout}
    (confined : before.Confined)
    (evolves : before.Evolves after) :
    after.Confined :=
  fun later wellFormed further => confined later wellFormed (evolves.trans further)

/-!
## Ranks
-/

/-- How far the forms of jumps are from the shortest ones, added up. -/
def totalRank : List Jump → Nat
  | [] => 0
  | jump :: rest => jump.form.rank + totalRank rest

theorem totalRank_append
    (front back : List Jump) :
    totalRank (front ++ back) = totalRank front + totalRank back := by
  induction front with
  | nil =>
      rw [List.nil_append, totalRank, Nat.zero_add]
  | cons jump rest inductionHypothesis =>
      rw [List.cons_append, totalRank, totalRank, inductionHypothesis, Nat.add_assoc]

end Layout

namespace Relaxation

open Layout (startOf totalRank)

/-!
## Visits
-/

namespace Sweep

/-- A jump that has been bound stands at its place in the pass. -/
theorem Located.stands
    {sweep : Sweep}
    {setting : Setting}
    {pending : List Jump}
    {jump bound : Jump}
    {own : Group}
    {target : Resolved}
    (located : sweep.Located (jump :: pending))
    (wellFormed : (sweep.toLayout setting.labels (jump :: pending)).WellFormed)
    (found : (sweep.enter jump.group).groups[jump.group.index]? = some own)
    (binds : bind setting.labels own (sweep.moved jump) = .ok (target, bound)) :
    (sweep.enter jump.group).Stands setting.labels (jump :: pending) own bound := by
  obtain ⟨evolves, sameForm, sameOffset, -, -⟩ := bind_moved wellFormed found binds
  have entered := wellFormed_enter wellFormed jump.group
  have enteredLocated := located.enter fun _ => group_le_of_pending wellFormed
  have isNext := (sweep.enter jump.group).getElem?_toLayout_jumps setting.labels jump pending
  obtain ⟨described, ⟨again, foundAgain, lower, upper⟩, -⟩ := entered.holds _ jump isNext
  obtain rfl : own = again := Option.some.inj (found.symm.trans foundAgain)
  refine ⟨entered, enteredLocated, ?_, ⟨?_, ?_, ?_⟩, ?_, ?_⟩
  · rw [evolves.group]
    exact sweep.enter_nextGroup jump.group
  · rw [evolves.group]
    exact found
  · rw [evolves.descriptor]
    exact lower
  · rw [evolves.descriptor]
    exact upper
  · rw [evolves.descriptor, sameOffset]
    exact enteredLocated.here jump (List.mem_cons_self ..) own found
      (sweep.enter_nextGroup jump.group)
  · rw [evolves.descriptor, Jump.size, sameForm, (Jump.forms_of_kind evolves.kind).2]
    exact Layout.startOf_succ described

/--
A visit that succeeds either lets its jump grow, or finds that the jump reaches
its target as it is.
-/
theorem visit_succeeds
    {sweep : Sweep}
    {setting : Setting}
    {pending : List Jump}
    {jump : Jump}
    (located : sweep.Located (jump :: pending))
    (wellFormed : (sweep.toLayout setting.labels (jump :: pending)).WellFormed)
    (succeeds : (sweep.visit setting pending jump).failure = none) :
    let visit := sweep.visit setting pending jump
    (visit.sweep.upgrades = sweep.upgrades + 1 ∧ jump.form.rank < visit.jump.form.rank) ∨
      (visit.sweep.upgrades = sweep.upgrades ∧
        visit.sweep.descriptors = sweep.descriptors ∧
          ((setting.checksRange = false →
              startOf sweep.descriptors sweep.descriptors.size ≤ 0xfff) →
            (sweep.toLayout setting.labels (jump :: pending)).Reached visit.jump)) := by
  have entered := wellFormed_enter wellFormed jump.group
  have isNext := (sweep.enter jump.group).getElem?_toLayout_jumps setting.labels jump pending
  obtain ⟨-, ⟨own, found, -⟩, -, isForm, -⟩ := entered.holds _ jump isNext
  obtain ⟨target, bound, form, binds, decides, visited⟩ := visit_of_succeeds found succeeds
  have stands := located.stands wellFormed found binds
  obtain ⟨evolves, sameForm, -, known, resolves⟩ := bind_moved wellFormed found binds
  obtain ⟨place, aims, inside⟩ := entered.exists_aims resolves
  obtain ⟨longer, reaches⟩ := stands.decideForm_spec aims decides
  have isBoundForm : bound.form ∈ bound.forms := by
    rw [sameForm, (Jump.forms_of_kind evolves.kind).1]
    exact isForm
  have upgraded := bound.form_upgrade form
  dsimp only
  rw [visited]
  by_cases grows : bound.form.rank < form.rank
  · refine Or.inl ?_
    rw [if_neg (Nat.not_le_of_lt grows)] at upgraded
    have sizes : (bound.upgrade form).size - bound.size ≠ 0 :=
      Nat.sub_ne_zero_of_lt (Jump.size_lt_upgrade isBoundForm grows)
    refine ⟨?_, ?_⟩
    · rw [grow_upgrades, if_neg sizes, enter_upgrades]
    · rw [upgraded, ← sameForm]
      exact grows
  · refine Or.inr ?_
    obtain rfl : bound.form = form :=
      Jump.rank_injective (Nat.le_antisymm longer (Nat.le_of_not_lt grows))
    have same : bound.upgrade bound.form = bound := by
      unfold Jump.upgrade
      exact if_pos (Nat.le_refl _)
    rw [same, grow_self, enter_upgrades, enter_descriptors]
    refine ⟨rfl, rfl, ?_⟩
    intro small
    have reached :
        ((sweep.enter jump.group).toLayout setting.labels (jump :: pending)).Reached bound := by
      refine ⟨target, place, known, aims, inside, ?_⟩
      -- Where ranges are not checked, the whole function is small enough for every form.
      cases checks : setting.checksRange with
      | true =>
          exact stands.reaches_of_kept (reaches checks)
      | false =>
          refine stands.reaches_of_small inside ?_
          rw [enter_descriptors]
          exact small checks
    refine reached.congr (sweep.enter_descriptors jump.group).symm ?_
    intro index group foundGroup
    obtain ⟨old, foundOld, first, -⟩ := enter_groups_cases foundGroup
    exact ⟨old, foundOld, first.symm⟩

/-!
## Passes
-/

/-- What holds between two visits of a pass. -/
structure Progress
    (layout : Layout)
    (sweep : Sweep)
    (pending : List Jump) :
    Prop where
  wellFormed : (sweep.toLayout layout.labels pending).WellFormed
  evolves : layout.Evolves (sweep.toLayout layout.labels pending)
  located : sweep.Located pending
  ranks :
    totalRank layout.jumps.toList + sweep.upgrades ≤
      totalRank (sweep.visited.toList ++ pending)
  quiet :
    sweep.upgrades = 0 →
      sweep.descriptors = layout.descriptors ∧
        ∀ (id : Nat) (jump : Jump), sweep.visited[id]? = some jump → layout.Reached jump

theorem progress_begin
    {layout : Layout}
    (wellFormed : layout.WellFormed)
    (located : layout.Located) :
    (begin layout).Progress layout layout.jumps.toList where
  wellFormed := by
    rw [toLayout_begin]
    exact wellFormed
  evolves := by
    rw [toLayout_begin]
    exact Layout.Evolves.refl layout
  located := located_begin located
  ranks := Nat.le_refl _
  quiet := by
    intro _
    refine ⟨rfl, ?_⟩
    intro id jump found
    cases found

/-- A visit that succeeds makes progress. -/
theorem Progress.visit
    {config : Config}
    {layout : Layout}
    {sweep : Sweep}
    {jump : Jump}
    {pending : List Jump}
    (progress : sweep.Progress layout (jump :: pending))
    (located : layout.Located)
    (small : config.smallFunctionBytes ≤ 0xfff)
    (wellFormed : layout.WellFormed)
    (succeeds : (sweep.visit (.of config layout) pending jump).failure = none) :
    let visit := sweep.visit (.of config layout) pending jump
    (visit.sweep.record visit.jump).Progress layout pending := by
  intro visit
  obtain ⟨keptWellFormed, keptEvolves⟩ :=
    wellFormed_visit (.of config layout) progress.wellFormed
  have advances : sweep.Advances _ jump visit := visit_advances progress.wellFormed
  have outcome := visit_succeeds progress.located progress.wellFormed succeeds
  have visited : (visit.sweep.record visit.jump).visited = sweep.visited.push visit.jump := by
    rw [advances.passes.visited, enter_visited]
  have ranks := progress.ranks
  rw [Layout.totalRank_append, totalRank] at ranks
  refine ⟨keptWellFormed, progress.evolves.trans keptEvolves,
    progress.located.visit _ progress.wellFormed, ?_, ?_⟩
  · rw [visited, Array.toList_push, Layout.totalRank_append, Layout.totalRank_append, totalRank,
      totalRank]
    show _ + visit.sweep.upgrades ≤ _
    have longer : jump.form.rank ≤ visit.jump.form.rank := advances.evolves.rank
    rcases outcome with ⟨upgrades, grown⟩ | ⟨upgrades, -, -⟩
    · have more : visit.sweep.upgrades = sweep.upgrades + 1 := upgrades
      have strictly : jump.form.rank < visit.jump.form.rank := grown
      omega
    · have same : visit.sweep.upgrades = sweep.upgrades := upgrades
      omega
  · intro none
    have noUpgrades : visit.sweep.upgrades = 0 := none
    rcases outcome with ⟨upgrades, -⟩ | ⟨upgrades, descriptors, reached⟩
    · have more : visit.sweep.upgrades = sweep.upgrades + 1 := upgrades
      omega
    · obtain ⟨unchanged, earlier⟩ := progress.quiet (upgrades.symm.trans noUpgrades)
      refine ⟨descriptors.trans unchanged, ?_⟩
      intro id other found
      rw [visited, Array.getElem?_push] at found
      split at found
      · cases found
        refine (reached ?_).congr unchanged.symm ?_
        · intro unchecked
          have notLarger := of_decide_eq_false unchecked
          rw [Layout.codeSize_eq wellFormed.partitioned located.groups] at notLarger
          rw [unchanged]
          omega
        · intro index group foundGroup
          obtain ⟨old, foundOld, first, -⟩ := progress.evolves.groups.backward foundGroup
          exact ⟨old, foundOld, first.symm⟩
      · exact earlier id other found

end Sweep

/-- What a walk over the jumps of a layout with everything in place comes to. -/
theorem walk_progress
    {config : Config}
    {layout : Layout}
    (wellFormed : layout.WellFormed)
    (located : layout.Located)
    (small : config.smallFunctionBytes ≤ 0xfff) :
    (∃ final : Sweep,
      final.Progress layout [] ∧
        (runPass config layout).result =
            (runPass config layout).layout.ifFits (.ok final.upgrades) ∧
          (runPass config layout).layout = final.complete.toLayout layout.labels []) ∨
      ∃ (failure : Failure) (before : Sweep) (jump : Jump) (pending : List Jump),
        before.Progress layout (jump :: pending) ∧
          (before.visit (.of config layout) pending jump).failure = some failure ∧
            (runPass config layout).result =
              (runPass config layout).layout.ifFits (.error failure) := by
  have step (sweep : Sweep) (jump : Jump) (pending : List Jump)
      (progress : sweep.Progress layout (jump :: pending))
      (succeeds : (sweep.visit (.of config layout) pending jump).failure = none) :=
    progress.visit located small wellFormed succeeds
  rcases Sweep.walk_induction (.of config layout) step
      (Sweep.progress_begin wellFormed located) with
    ⟨final, progress, walked⟩ | ⟨failure, before, jump, pending, progress, fails, walked⟩
  · obtain ⟨result, after⟩ := runPass_of_completed walked
    exact Or.inl ⟨final, progress, result, after⟩
  · exact Or.inr ⟨failure, before, jump, pending, progress, fails,
      (runPass_of_stopped walked).1⟩

/-- A pass that succeeds puts everything in place, and ends relaxation if nothing grows. -/
theorem runPass_eq_ok
    {config : Config}
    {layout : Layout}
    {grown : Nat}
    (wellFormed : layout.WellFormed)
    (located : layout.Located)
    (small : config.smallFunctionBytes ≤ 0xfff)
    (succeeds : (runPass config layout).result = .ok grown) :
    let after := (runPass config layout).layout
    after.Located ∧
      totalRank layout.jumps.toList + grown ≤ totalRank after.jumps.toList ∧
        (grown = 0 →
          ∀ (id : Nat) (jump : Jump), after.jumps[id]? = some jump → after.Reached jump) := by
  rcases walk_progress wellFormed located small with
    ⟨final, progress, result, after⟩ | ⟨failure, _, _, _, _, _, result⟩
  · rw [result] at succeeds
    cases (Layout.ifFits_eq_ok_iff.mp succeeds).2
    dsimp only
    rw [after]
    have jumps : (final.complete.toLayout layout.labels []).jumps = final.visited := by
      apply Array.toList_inj.mp
      show (final.visited ++ ([] : List Jump)).toList = _
      rw [Array.toList_appendList, List.append_nil]
    refine ⟨progress.located.complete layout.labels, ?_, ?_⟩
    · have ranks := progress.ranks
      rw [List.append_nil] at ranks
      rw [jumps]
      exact ranks
    · intro none id jump found
      rw [jumps] at found
      obtain ⟨unchanged, reached⟩ := progress.quiet none
      refine (reached id jump found).congr unchanged ?_
      intro index group foundGroup
      obtain ⟨later, foundLater, first, -⟩ := progress.evolves.groups.forward index group foundGroup
      have completed := (Sweep.wellFormed_complete progress.wellFormed).2
      obtain ⟨last, foundLast, lastFirst, -⟩ := completed.groups.forward index later foundLater
      exact ⟨last, foundLast, lastFirst.trans first⟩
  · rw [result] at succeeds
    cases (Layout.ifFits_eq_ok_iff.mp succeeds).2

end Relaxation

end Rv64Codegen
