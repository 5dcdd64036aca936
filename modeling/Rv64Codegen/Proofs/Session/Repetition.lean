import Rv64Codegen.Proofs.Relaxation.FixedPoint
import Rv64Codegen.Proofs.Relaxation.Margin
import Rv64Codegen.Proofs.Session.Changes

namespace Rv64Codegen

/-!
# Relaxation repeated

A pass in which no jump grows moves no group and no jump; all it may change is that
jumps are bound to their targets.  The next pass then sees the same groups, the same
descriptors and the same short jumps behind every jump, and decides as before.  So
relaxation that has succeeded has nothing to do when it is called again, whatever
the reserve, the threshold for small programs and the budget of passes are.
-/

namespace Relaxation

/-- Moving groups by no bytes leaves them in place. -/
theorem shiftGroups_zero
    (count index : Nat)
    (groups : Array Group) :
    shiftGroups 0 count index groups = groups := by
  apply Array.ext_getElem?
  intro place
  rw [getElem?_shiftGroups]
  cases groups[place]? with
  | none =>
      rfl
  | some group =>
      rw [Option.map_some]
      split <;> rfl

namespace Sweep

/-- A pass in which nothing has grown has the groups and descriptors it began with. -/
structure Quiet
    (layout : Layout)
    (sweep : Sweep) :
    Prop where
  groups : sweep.groups = layout.groups
  descriptors : sweep.descriptors = layout.descriptors
  growth : sweep.growth = 0
  groupGrowth : sweep.groupGrowth = 0
  upgrades : sweep.upgrades = 0

theorem quiet_begin (layout : Layout) :
    (begin layout).Quiet layout :=
  ⟨rfl, rfl, rfl, rfl, rfl⟩

section

variable
  {layout : Layout}
  {sweep : Sweep}

theorem Quiet.enter
    (quiet : sweep.Quiet layout)
    (group : GroupId) :
    (sweep.enter group).Quiet layout := by
  unfold Sweep.enter
  split
  · exact quiet
  · refine ⟨?_, quiet.descriptors, quiet.growth, rfl, quiet.upgrades⟩
    dsimp only
    rw [quiet.growth, shiftGroups_zero]
    exact quiet.groups

theorem Quiet.complete
    (quiet : sweep.Quiet layout) :
    sweep.complete.Quiet layout := by
  refine ⟨?_, quiet.descriptors, quiet.growth, quiet.groupGrowth, quiet.upgrades⟩
  unfold Sweep.complete
  dsimp only
  rw [quiet.growth, shiftGroups_zero]
  exact quiet.groups

/-- A jump stays at its place in a pass in which nothing has grown. -/
theorem Quiet.moved
    (quiet : sweep.Quiet layout)
    (jump : Jump) :
    sweep.moved jump = jump := by
  unfold Sweep.moved
  rw [(quiet.enter jump.group).groupGrowth]
  rfl

/-- What is decided does not depend on how far a quiet pass has got. -/
theorem Quiet.decideForm
    (quiet : sweep.Quiet layout)
    (setting : Setting)
    (pending : List Jump)
    (own : Group)
    (jump : Jump)
    (target : Resolved) :
    sweep.decideForm setting pending own jump target =
      (begin layout).decideForm setting pending own jump target := by
  unfold Sweep.decideForm view
  rw [quiet.groups, quiet.descriptors, quiet.growth]
  rfl

end

/-!
## Jumps at rest
-/

/-- What the jumps in front of it see of a jump. -/
def mark (jump : Jump) : Nat × Bool :=
  (jump.descriptor, jump.isLong)

theorem shortJumpsBefore_eq
    (view : View)
    (windowEnd : Nat) :
    view.shortJumpsBefore windowEnd =
      ((view.pending.map mark).takeWhile fun seen => decide (seen.1 < windowEnd)).countP
        fun seen => !seen.2 := by
  rw [List.takeWhile_map, List.countP_map]
  rfl

section

variable
  {pending later : List Jump}
  (same : later.map mark = pending.map mark)
  (sweep : Sweep)
  (setting : Setting)

include same

theorem margin_congr (aim : Aim) :
    (sweep.view setting later).margin aim = (sweep.view setting pending).margin aim := by
  unfold View.margin
  split
  · rename_i windowEnd _
    have sameCount :
        (sweep.view setting later).shortJumpsBefore windowEnd =
          (sweep.view setting pending).shortJumpsBefore windowEnd := by
      rw [shortJumpsBefore_eq, shortJumpsBefore_eq]
      exact congrArg _ (congrArg _ same)
    rw [sameCount]
    rfl
  · rfl

/-- A decision depends on the jumps behind only by what is seen of them. -/
theorem decideForm_congr
    (own : Group)
    (jump : Jump)
    (target : Resolved) :
    sweep.decideForm setting later own jump target =
      sweep.decideForm setting pending own jump target := by
  have sameAim :
      (sweep.view setting later).aim? jump own target =
        (sweep.view setting pending).aim? jump own target := by
    cases target <;> rfl
  unfold decideForm chooseForm
  dsimp only
  rw [sameAim]
  simp only [margin_congr same]

end

/-- A bound jump whose form is the one that a pass decides on. -/
def Rests
    (layout : Layout)
    (setting : Setting)
    (pending : List Jump)
    (jump : Jump) :
    Prop :=
  ∃ own target,
    layout.groups[jump.group.index]? = some own ∧ jump.resolved = some target ∧
      (begin layout).decideForm setting pending own jump target = .ok jump.form

section

variable
  {layout : Layout}
  {setting : Setting}
  {sweep : Sweep}
  {jump : Jump}
  {pending : List Jump}

theorem Rests.congr
    {later : List Jump}
    (rests : Rests layout setting pending jump)
    (same : later.map mark = pending.map mark) :
    Rests layout setting later jump := by
  obtain ⟨own, target, found, known, decides⟩ := rests
  refine ⟨own, target, found, known, ?_⟩
  rw [decideForm_congr same]
  exact decides

/-- A visit to a jump at rest changes nothing. -/
theorem Rests.visit
    (rests : Rests layout setting pending jump)
    (quiet : sweep.Quiet layout) :
    sweep.visit setting pending jump = ⟨jump, sweep.enter jump.group, none⟩ := by
  obtain ⟨own, target, found, known, decides⟩ := rests
  have entered := quiet.enter jump.group
  have foundNow : (sweep.enter jump.group).groups[jump.group.index]? = some own := by
    rw [entered.groups]
    exact found
  have binds : bind setting.labels own jump = .ok (target, jump) := by
    unfold bind
    rw [known]
  have stays : jump.upgrade jump.form = jump := if_pos (Nat.le_refl _)
  rw [visit_eq setting pending foundNow, quiet.moved, binds]
  dsimp only
  rw [entered.decideForm, decides]
  dsimp only
  rw [stays, grow_self]

/-- A visit after which nothing has grown leaves its jump at rest, and looking as before. -/
theorem Quiet.visit
    (quiet : sweep.Quiet layout)
    (wellFormed : (sweep.toLayout setting.labels (jump :: pending)).WellFormed)
    (succeeds : (sweep.visit setting pending jump).failure = none)
    (noneGrown : (sweep.visit setting pending jump).sweep.upgrades = 0) :
    let visit := sweep.visit setting pending jump
    visit.sweep.Quiet layout ∧ Rests layout setting pending visit.jump ∧
      mark visit.jump = mark jump := by
  have entered := quiet.enter jump.group
  have wellFormedThere := wellFormed_enter wellFormed jump.group
  have isNext := (sweep.enter jump.group).getElem?_toLayout_jumps setting.labels jump pending
  have holds := wellFormedThere.holds _ jump isNext
  obtain ⟨own, found, -⟩ := holds.owned
  obtain ⟨target, bound, form, binds, decides, visited⟩ := visit_of_succeeds found succeeds
  obtain ⟨evolves, sameForm, -, known, -⟩ := bind_moved wellFormed found binds
  have isForm : bound.form ∈ bound.forms := by
    rw [sameForm, (Jump.forms_of_kind evolves.kind).1]
    exact holds.form
  rw [visited] at noneGrown ⊢
  -- a longer form would have been counted as an upgrade
  have notLonger : form.rank ≤ bound.form.rank := by
    apply Nat.le_of_not_lt
    intro longer
    have grown : (bound.upgrade form).size - bound.size ≠ 0 :=
      Nat.sub_ne_zero_of_lt (Jump.size_lt_upgrade isForm longer)
    rw [grow_upgrades, if_neg grown] at noneGrown
    cases noneGrown
  have stays : bound.upgrade form = bound := if_pos notLonger
  obtain rfl : bound.form = form :=
    Jump.rank_injective (Nat.le_antisymm (rank_le_of_decideForm decides) notLonger)
  dsimp only
  rw [stays, grow_self]
  refine ⟨entered, ⟨own, target, ?_, known, ?_⟩, ?_⟩
  · rw [evolves.group, ← entered.groups]
    exact found
  · rw [← entered.decideForm]
    exact decides
  · have sameLong : bound.isLong = jump.isLong := by
      rw [Bool.eq_iff_iff, ← not_iff_not, Bool.not_eq_true, Bool.not_eq_true,
        Jump.isLong_eq_false_iff, Jump.isLong_eq_false_iff, sameForm]
    rw [mark, mark, evolves.descriptor, sameLong]

end

end Sweep

/-!
## Passes
-/

variable
  {config : Config}
  {layout : Layout}

/-- Every jump of a layout is at rest, with the jumps that stand behind it. -/
def AtRest
    (config : Config)
    (layout : Layout) :
    Prop :=
  ∀ (id : Nat) (jump : Jump),
    layout.jumps[id]? = some jump →
      Sweep.Rests layout (.of config layout) (layout.jumps.toList.drop (id + 1)) jump

namespace Sweep

/-- As long as nothing grows in a pass, the jumps that it has visited are at rest. -/
structure Settling
    (config : Config)
    (layout : Layout)
    (sweep : Sweep)
    (pending : List Jump) :
    Prop where
  wellFormed : (sweep.toLayout layout.labels pending).WellFormed
  resting :
    sweep.upgrades = 0 →
      sweep.Quiet layout ∧
        ∀ (id : Nat) (jump : Jump),
          sweep.visited[id]? = some jump →
            Rests layout (.of config layout)
              ((sweep.visited.toList ++ pending).drop (id + 1)) jump

theorem settling_begin
    (config : Config)
    (wellFormed : layout.WellFormed) :
    (begin layout).Settling config layout layout.jumps.toList := by
  refine ⟨?_, fun _ => ⟨quiet_begin layout, ?_⟩⟩
  · rw [toLayout_begin]
    exact wellFormed
  · intro id jump found
    cases found

theorem Settling.visit
    {sweep : Sweep}
    {jump : Jump}
    {pending : List Jump}
    (settling : sweep.Settling config layout (jump :: pending))
    (succeeds : (sweep.visit (.of config layout) pending jump).failure = none) :
    let visit := sweep.visit (.of config layout) pending jump
    (visit.sweep.record visit.jump).Settling config layout pending := by
  intro visit
  have wellFormed :
      (sweep.toLayout (Setting.of config layout).labels (jump :: pending)).WellFormed :=
    settling.wellFormed
  obtain ⟨bound, -, -, -, isSweep⟩ := (visit_advances wellFormed).sweep
  have visited : (visit.sweep.record visit.jump).visited = sweep.visited.push visit.jump := by
    show visit.sweep.visited.push visit.jump = _
    rw [isSweep, grow_visited, enter_visited]
  refine ⟨(wellFormed_visit _ wellFormed).1, ?_⟩
  intro noneGrown
  have noneBefore : sweep.upgrades = 0 := by
    change visit.sweep.upgrades = 0 at noneGrown
    rw [isSweep, grow_upgrades, enter_upgrades] at noneGrown
    split at noneGrown
    · exact noneGrown
    · cases noneGrown
  obtain ⟨quiet, resting⟩ := settling.resting noneBefore
  obtain ⟨stillQuiet, rests, sameMark⟩ := quiet.visit wellFormed succeeds noneGrown
  refine ⟨⟨stillQuiet.groups, stillQuiet.descriptors, stillQuiet.growth,
    stillQuiet.groupGrowth, stillQuiet.upgrades⟩, ?_⟩
  rw [visited]
  intro id later found
  rw [Array.getElem?_push] at found
  split at found
  · rename_i isLast
    cases found
    rw [isLast, Array.toList_push, List.append_assoc, List.singleton_append,
      ← Array.length_toList, List.drop_length_add_append]
    exact rests
  · -- the jumps in front see the same short jumps behind them as before
    refine (resting id later found).congr ?_
    rw [List.map_drop, List.map_drop, Array.toList_push, List.append_assoc,
      List.singleton_append, List.map_append, List.map_append, List.map_cons, List.map_cons,
      sameMark]

end Sweep

/-- A pass in which nothing grows leaves all in place and every jump at rest. -/
theorem atRest_runPass
    (wellFormed : layout.WellFormed)
    (succeeds : (runPass config layout).result = .ok 0) :
    AtRest config (runPass config layout).layout := by
  rcases Sweep.walk_induction (.of config layout) (fun _ _ _ => Sweep.Settling.visit)
      (Sweep.settling_begin config wellFormed) with
    ⟨final, settling, walked⟩ | ⟨failure, before, jump, pending, -, -, walked⟩
  · obtain ⟨-, after⟩ := runPass_of_completed walked
    have noneGrown : final.complete.upgrades = 0 := upgrades_of_completed walked succeeds
    obtain ⟨quiet, resting⟩ := settling.resting noneGrown
    have isAfter :
        (runPass config layout).layout = { layout with jumps := final.visited } := by
      rw [after, Sweep.toLayout, quiet.complete.groups, quiet.complete.descriptors]
      exact congrArg (Layout.mk _ _ · _) (Sweep.toLayout_nil_jumps final.complete layout.labels)
    rw [isAfter]
    intro id jump found
    have rests := resting id jump found
    rw [List.append_nil] at rests
    exact rests
  · exact absurd succeeds (ne_ok_of_stopped walked _)

/-- A pass in which nothing has happened. -/
def Sweep.Idle
    (layout : Layout)
    (sweep : Sweep)
    (pending : List Jump) :
    Prop :=
  sweep.Quiet layout ∧ sweep.visited.toList ++ pending = layout.jumps.toList

theorem AtRest.visit
    {sweep : Sweep}
    {jump : Jump}
    {pending : List Jump}
    (atRest : AtRest config layout)
    (idle : sweep.Idle layout (jump :: pending)) :
    sweep.visit (.of config layout) pending jump = ⟨jump, sweep.enter jump.group, none⟩ := by
  obtain ⟨quiet, jumps⟩ := idle
  have isNext : layout.jumps[sweep.visited.size]? = some jump := by
    rw [← Array.getElem?_toList, ← jumps, ← Array.length_toList,
      List.getElem?_append_right (Nat.le_refl _), Nat.sub_self]
    rfl
  have behind : layout.jumps.toList.drop (sweep.visited.size + 1) = pending := by
    rw [← jumps, ← Array.length_toList]
    exact List.drop_length_add_append 1
  have rests := atRest _ jump isNext
  rw [behind] at rests
  exact rests.visit quiet

/-- A pass over jumps at rest changes nothing. -/
theorem AtRest.runPass
    (atRest : AtRest config layout)
    (fits : layout.fits = true) :
    (runPass config layout).result = .ok 0 ∧ (runPass config layout).layout = layout := by
  have step (sweep : Sweep) (jump : Jump) (pending : List Jump)
      (idle : sweep.Idle layout (jump :: pending)) :
      ((sweep.visit (.of config layout) pending jump).sweep.record
        (sweep.visit (.of config layout) pending jump).jump).Idle layout pending := by
    rw [atRest.visit idle]
    obtain ⟨groups, descriptors, growth, groupGrowth, upgrades⟩ := idle.1.enter jump.group
    refine ⟨⟨groups, descriptors, growth, groupGrowth, upgrades⟩, ?_⟩
    show ((sweep.enter jump.group).visited.push jump).toList ++ pending = _
    rw [Sweep.enter_visited, Array.toList_push, List.append_assoc]
    exact idle.2
  rcases Sweep.walk_induction (.of config layout) (fun _ _ _ idle _ => step _ _ _ idle)
      (⟨Sweep.quiet_begin layout, rfl⟩ : (Sweep.begin layout).Idle layout _) with
    ⟨final, idle, walked⟩ | ⟨failure, before, jump, pending, idle, fails, -⟩
  · obtain ⟨result, after⟩ := runPass_of_completed walked
    have quiet := idle.1.complete
    have jumps : final.visited ++ ([] : List Jump) = layout.jumps := by
      apply Array.toList_inj.mp
      rw [Array.toList_appendList]
      exact idle.2
    have same : (Relaxation.runPass config layout).layout = layout := by
      rw [after, Sweep.toLayout, quiet.groups, quiet.descriptors]
      exact congrArg (Layout.mk _ _ · _) jumps
    rw [result, same, Layout.ifFits_of_fits fits, quiet.upgrades]
    exact ⟨rfl, rfl⟩
  · rw [atRest.visit idle] at fails
    cases fails

end Relaxation

namespace Layout

open Relaxation (AtRest)

/-- At the fixed point every jump is at rest. -/
theorem Settles.atRest
    {config : Config}
    {layout settled : Layout}
    (settles : Settles config layout settled)
    (wellFormed : layout.WellFormed) :
    AtRest config settled := by
  induction settles with
  | quiet pass =>
      exact Relaxation.atRest_runPass wellFormed pass
  | grown _ _ _ inductionHypothesis =>
      exact inductionHypothesis (Relaxation.wellFormed_runPass config wellFormed).1

/-- Relaxation of jumps at rest takes one pass, in which nothing happens. -/
theorem relax_of_atRest
    {config : Config}
    {layout : Layout}
    (atRest : AtRest config layout)
    (fits : layout.fits = true)
    (within : layout.codeSize ≤ config.maxCodeBytes)
    (allowed : 0 < layout.passBudget config) :
    (layout.relax config).result = .ok (layout.relaxStats 1 0) ∧
      (layout.relax config).layout = layout := by
  obtain ⟨result, after⟩ := atRest.runPass fits
  obtain ⟨rest, isBudget⟩ := Nat.exists_eq_succ_of_ne_zero (Nat.ne_of_gt allowed)
  unfold relax
  rw [isBudget, Nat.succ_eq_add_one, relaxWithin]
  dsimp only
  rw [result, after]
  dsimp only
  rw [if_neg (Nat.not_lt_of_le within), if_pos rfl]
  exact ⟨rfl, rfl⟩

/-- Where one relaxation succeeds, the budget of every layout has a pass. -/
theorem passBudget_pos
    {config : Config}
    {layout : Layout}
    {stats : RelaxStats}
    (succeeds : (layout.relax config).result = .ok stats)
    (other : Layout) :
    0 < other.passBudget config := by
  unfold relax at succeeds
  unfold passBudget at succeeds ⊢
  cases limit : config.maxRelaxPasses with
  | none =>
      exact Nat.succ_pos _
  | some budget =>
      rw [limit] at succeeds
      cases budget with
      | zero =>
          cases succeeds
      | succ budget =>
          exact Nat.succ_pos budget

end Layout

namespace Session

/--
Relaxation that succeeds is done: the next one takes one pass, lets no jump grow,
reports the same layout and leaves the session as it is.  This is so after all
commands, in every configuration, also when an earlier relaxation has failed.
-/
theorem relax_idempotent
    (config : Config)
    (commands : List Command)
    {stats : RelaxStats}
    (succeeds : ((start config).run commands).relax.1 = .ok stats) :
    let relaxed := ((start config).run commands).relax.2
    relaxed.relax.1 = .ok { stats with passes := 1, upgrades := 0 } ∧
      relaxed.relax.2 = relaxed := by
  intro relaxed
  obtain ⟨settles, within, isStats⟩ := Layout.relaxWithin_eq_ok succeeds
  have atRest := settles.atRest (wellFormed_run config commands)
  obtain ⟨result, after⟩ :=
    Layout.relax_of_atRest atRest settles.fits within (Layout.passBudget_pos succeeds _)
  constructor
  · rw [isStats]
    exact result
  · exact congrArg (Session.mk _ · _ _) after

/--
A jump whose label is bound only after relaxation has been tried; when it takes its
longest form, the code is no longer small and the branch behind it is checked.
-/
def growsOutOfSmall : List Command :=
  [.newLabel, .newLabel, .jump ⟨0⟩, .relax, .keepLong ⟨0⟩, .bindLabel ⟨1⟩,
    .branch .bne (.x 10) (.x 11) ⟨1⟩, .immediate .addi (.x 10) (.x 10) 1,
    .immediate .addi (.x 11) (.x 11) 1, .bindLabel ⟨0⟩]

theorem relax_idempotent_growsOutOfSmall :
    let config : Config := { smallFunctionBytes := 16, maxRelaxPasses := some 2 }
    let session := (start config).run growsOutOfSmall
    session.relax.1 = .ok ⟨2, 1, 0, 1, 20⟩ ∧
      session.relax.2.relax.1 = .ok ⟨1, 0, 0, 1, 20⟩ ∧
        session.relax.2.relax.2 = session.relax.2 := by
  intro config session
  have succeeds : session.relax.1 = .ok ⟨2, 1, 0, 1, 20⟩ := by
    decide +kernel
  exact ⟨succeeds, relax_idempotent config growsOutOfSmall succeeds⟩

end Session

end Rv64Codegen
