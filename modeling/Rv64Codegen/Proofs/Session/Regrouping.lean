import Mathlib.Data.List.Induction
import Rv64Codegen.Proofs.Output.Agreement
import Rv64Codegen.Proofs.Session.Finish
import Rv64Codegen.Proofs.Session.Labels
import Rv64Codegen.Proofs.Session.Refusals
import Rv64Codegen.Proofs.Session.Regularity

namespace Rv64Codegen.Session

/-!
# Groups do not show

A front end may open groups wherever it likes.  Sessions that differ by such
requests only agree in all but their groups after every command, and they are
finished to the same code, data, relocations and offsets.
-/

/-- Two sessions that differ in the groups of their layouts only. -/
structure Agrees (first second : Session) : Prop where
  config : second.config = first.config
  pool : second.pool = first.pool
  region : second.region = first.region
  layouts : first.layout.Agrees second.layout

namespace Agrees

theorem refl (session : Session) :
    session.Agrees session :=
  ⟨rfl, rfl, rfl, .refl _⟩

theorem symm
    {first second : Session}
    (agrees : first.Agrees second) :
    second.Agrees first :=
  ⟨agrees.config.symm, agrees.pool.symm, agrees.region.symm, agrees.layouts.symm⟩

theorem trans
    {first second third : Session}
    (early : first.Agrees second)
    (late : second.Agrees third) :
    first.Agrees third :=
  ⟨late.config.trans early.config, late.pool.trans early.pool,
    late.region.trans early.region, early.layouts.trans late.layouts⟩

end Agrees

/-!
## What single requests leave

A request is made to two sessions that differ in their layouts, and these in their
groups.
-/

section

variable
  {config : Config}
  {layout other : Layout}
  {pool : DataPool}
  {region : Region}
  (agrees : layout.Agrees other)
  (regular : layout.Regular)
  (otherRegular : other.Regular)

include agrees regular otherRegular

/-- There is room behind the same number of bytes. -/
theorem hasRoom_iff
    (operation : Operation) :
    HasRoom ⟨config, other, pool, region⟩ operation ↔
      HasRoom ⟨config, layout, pool, region⟩ operation := by
  have sameSize := agrees.codeSize_eq regular otherRegular
  constructor
  · rintro ⟨limit, fits⟩
    dsimp only at limit fits
    rw [sameSize] at limit fits
    exact ⟨limit, fits⟩
  · rintro ⟨limit, fits⟩
    dsimp only at limit fits
    rw [← sameSize] at limit fits
    exact ⟨limit, fits⟩

theorem breaks_eq
    (operation : Operation) :
    breaks ⟨config, other, pool, region⟩ operation =
      breaks ⟨config, layout, pool, region⟩ operation := by
  unfold breaks
  dsimp only
  rw [agrees.codeSize_eq regular otherRegular]

theorem append_agrees
    (operation : Operation) :
    (append ⟨config, layout, pool, region⟩ operation).2.Agrees
      (append ⟨config, other, pool, region⟩ operation).2 := by
  unfold append
  dsimp only
  rw [breaks_eq agrees regular otherRegular, agrees.codeSize_eq regular otherRegular]
  split
  · exact ⟨rfl, rfl, rfl, agrees⟩
  · split
    · exact ⟨rfl, rfl, rfl, agrees⟩
    · exact ⟨rfl, rfl, rfl, agrees.push regular.wellFormed otherRegular.wellFormed _⟩

theorem appendChecked_agrees
    (checked : Except EmissionError Operation) :
    (appendChecked ⟨config, layout, pool, region⟩ checked).2.Agrees
      (appendChecked ⟨config, other, pool, region⟩ checked).2 := by
  cases checked with
  | error cause =>
      exact ⟨rfl, rfl, rfl, agrees⟩
  | ok operation =>
      exact append_agrees agrees regular otherRegular operation

theorem appendJumpChecked_agrees
    (checked : Except EmissionError JumpKind)
    (target : JumpTarget) :
    (appendJumpChecked ⟨config, layout, pool, region⟩ checked target).2.Agrees
      (appendJumpChecked ⟨config, other, pool, region⟩ checked target).2 := by
  cases checked with
  | error cause =>
      exact ⟨rfl, rfl, rfl, agrees⟩
  | ok kind =>
      have sameRoom :
          HasRoom ⟨config, other, pool, region⟩ (.jump ⟨other.jumps.size⟩) ↔
            HasRoom ⟨config, layout, pool, region⟩ (.jump ⟨layout.jumps.size⟩) := by
        rw [agrees.jumps.size]
        exact hasRoom_iff agrees regular otherRegular _
      unfold appendJumpChecked appendJump
      dsimp only
      by_cases room : HasRoom ⟨config, layout, pool, region⟩ (.jump ⟨layout.jumps.size⟩)
      · rw [append_of_room room, append_of_room (sameRoom.mpr room)]
        exact ⟨rfl, rfl, rfl,
          agrees.pushFresh regular.wellFormed otherRegular.wellFormed kind target⟩
      · obtain ⟨failure, fails⟩ :=
          (append_cases ⟨config, layout, pool, region⟩ _).resolve_right fun appends =>
            room appends.1
        obtain ⟨otherFailure, otherFails⟩ :=
          (append_cases ⟨config, other, pool, region⟩ _).resolve_right fun appends =>
            room (sameRoom.mp appends.1)
        rw [fails, otherFails]
        exact ⟨rfl, rfl, rfl, agrees⟩

/-- Constants go into the same pool, and get the same slots. -/
theorem appendPooled_agrees
    (value : UInt64)
    (operation : Nat → Operation) :
    (appendPooled ⟨config, layout, pool, region⟩ value operation).2.Agrees
      (appendPooled ⟨config, other, pool, region⟩ value operation).2 := by
  unfold appendPooled
  dsimp only
  cases pool.intern value with
  | error cause =>
      exact ⟨rfl, rfl, rfl, agrees⟩
  | ok pair =>
      obtain ⟨slot, interned⟩ := pair
      dsimp only
      rw [breaks_eq agrees regular otherRegular]
      split
      · exact ⟨rfl, rfl, rfl, agrees⟩
      · exact append_agrees agrees regular otherRegular (operation slot)

theorem appendConstant_agrees
    (value : UInt64)
    (inline : Sequence → Operation)
    (pooled : Nat → Operation) :
    (appendConstant ⟨config, layout, pool, region⟩ value inline pooled).2.Agrees
      (appendConstant ⟨config, other, pool, region⟩ value inline pooled).2 := by
  have samePlan :
      Constant.plan value.toInt64 config.constants
          (reachesPool ⟨config, other, pool, region⟩) =
        Constant.plan value.toInt64 config.constants
          (reachesPool ⟨config, layout, pool, region⟩) := rfl
  unfold appendConstant
  dsimp only
  rw [samePlan]
  split
  · exact ⟨rfl, rfl, rfl, agrees⟩
  · exact append_agrees agrees regular otherRegular _
  · exact appendPooled_agrees agrees regular otherRegular value pooled

theorem appendConstantChecked_agrees
    (checked : Except EmissionError Unit)
    (value : UInt64)
    (inline : Sequence → Operation)
    (pooled : Nat → Operation) :
    (appendConstantChecked ⟨config, layout, pool, region⟩ checked value inline pooled).2.Agrees
      (appendConstantChecked ⟨config, other, pool, region⟩ checked value inline pooled).2 := by
  cases checked with
  | error cause =>
      exact ⟨rfl, rfl, rfl, agrees⟩
  | ok passed =>
      exact appendConstant_agrees agrees regular otherRegular value inline pooled

theorem bindLabel_agrees
    (label : LabelId) :
    (bindLabel ⟨config, layout, pool, region⟩ label).2.Agrees
      (bindLabel ⟨config, other, pool, region⟩ label).2 := by
  have sameFree :
      other.labels[label.index]? = some none ↔ layout.labels[label.index]? = some none := by
    rw [regular.wellFormed.unbound_iff, otherRegular.wellFormed.unbound_iff, agrees.labels,
      agrees.places]
  -- Only one of the two sessions may have to open a group for the label.
  by_cases free : layout.labels[label.index]? = some none
  · obtain ⟨empty, toEmpty, wellFormed, isFree, isEmpty, after⟩ :=
      bindLabel_snd_of_free ⟨config, layout, pool, region⟩ regular.wellFormed free
    obtain ⟨otherEmpty, toOtherEmpty, otherWellFormed, otherIsFree, otherIsEmpty, otherAfter⟩ :=
      bindLabel_snd_of_free ⟨config, other, pool, region⟩ otherRegular.wellFormed
        (sameFree.mpr free)
    rw [after, otherAfter]
    refine ⟨rfl, rfl, rfl, ?_⟩
    exact ((toEmpty.symm.trans agrees).trans toOtherEmpty).bindLabel wellFormed otherWellFormed
      isFree otherIsFree isEmpty otherIsEmpty
  · rw [bindLabel_snd_of_bound free,
      bindLabel_snd_of_bound fun otherFree => free (sameFree.mp otherFree)]
    exact ⟨rfl, rfl, rfl, agrees⟩

end

/-!
## Commands
-/

/-- What a command asks for does not depend on groups. -/
theorem Agrees.action_eq
    {first second : Session}
    (agrees : first.Agrees second)
    (command : Command) :
    second.action command = first.action command := by
  obtain ⟨firstConfig, layout, firstPool, firstRegion⟩ := first
  obtain ⟨config, other, pool, region⟩ := second
  obtain ⟨rfl, rfl, rfl, agrees⟩ := agrees
  cases command with
  | labelAddress rd label =>
      dsimp only [action, labelAddress]
      rw [agrees.labels]
  | call link target =>
      cases target <;> rfl
  | _ =>
      rfl

/-- A command that is given to sessions that agree leaves sessions that agree. -/
theorem Agrees.perform
    {first second : Session}
    (agrees : first.Agrees second)
    (regular : first.layout.Regular)
    (otherRegular : second.layout.Regular)
    {command : Command}
    (notRelax : command ≠ .relax) :
    (first.perform command).2.Agrees (second.perform command).2 := by
  rw [perform_eq_act, perform_eq_act, agrees.action_eq command]
  obtain ⟨firstConfig, layout, firstPool, firstRegion⟩ := first
  obtain ⟨config, other, pool, region⟩ := second
  obtain ⟨rfl, rfl, rfl, agrees⟩ := agrees
  dsimp only at agrees regular otherRegular
  cases isAction : action ⟨config, layout, pool, region⟩ command with
  | newLabel =>
      exact ⟨rfl, rfl, rfl, agrees.addLabel regular.wellFormed otherRegular.wellFormed⟩
  | bindLabel label =>
      exact bindLabel_agrees agrees regular otherRegular label
  | newGroup =>
      refine ⟨rfl, rfl, rfl, ?_⟩
      exact ((Layout.Agrees.openGroup regular.wellFormed).symm.trans agrees).trans
        (Layout.Agrees.openGroup otherRegular.wellFormed)
  | setRegion next =>
      exact ⟨rfl, rfl, rfl, agrees⟩
  | keepLong id =>
      exact ⟨rfl, rfl, rfl, agrees.keepLong id.index⟩
  | operation checked =>
      exact appendChecked_agrees agrees regular otherRegular checked
  | jump checked target =>
      exact appendJumpChecked_agrees agrees regular otherRegular checked target
  | constant checked value inline pooled =>
      exact appendConstantChecked_agrees agrees regular otherRegular checked value inline pooled
  | pool call =>
      exact ⟨rfl, rfl, rfl, agrees⟩
  | relax =>
      exact absurd (eq_of_command? (congrArg Action.command? isAction)) notRelax

/-- Without relaxation in between, a session is always regular. -/
theorem regular_run_of_not_mem
    (config : Config)
    {commands : List Command}
    (noRelax : Command.relax ∉ commands) :
    ((start config).run commands).layout.Regular := by
  refine regular_run ?_
  rintro front back rfl
  exact absurd (by simp) noRelax

/-- Requests for new groups can be left out. -/
theorem run_agrees_filter
    (config : Config)
    {commands : List Command}
    (noRelax : Command.relax ∉ commands) :
    ((start config).run commands).Agrees
      ((start config).run (commands.filter (· ≠ .newGroup))) := by
  induction commands using List.reverseRecOn with
  | nil =>
      exact .refl _
  | append_singleton front command inductionHypothesis =>
      have noRelaxFront : Command.relax ∉ front :=
        fun member => noRelax (List.mem_append_left _ member)
      have noRelaxFiltered : Command.relax ∉ front.filter (· ≠ .newGroup) :=
        fun member => noRelaxFront (List.mem_of_mem_filter member)
      have agrees := inductionHypothesis noRelaxFront
      have regular := regular_run_of_not_mem config noRelaxFront
      have otherRegular := regular_run_of_not_mem config noRelaxFiltered
      rw [List.filter_append, run_append, run_append]
      by_cases isGroup : command = .newGroup
      · subst isGroup
        have opened := Layout.Agrees.openGroup regular.wellFormed
        exact ⟨agrees.config, agrees.pool, agrees.region, opened.symm.trans agrees.layouts⟩
      · have notRelax : command ≠ .relax := by
          rintro rfl
          exact noRelax (by simp)
        have isKept : [command].filter (· ≠ .newGroup) = [command] := by
          simp [isGroup]
        rw [isKept]
        exact agrees.perform regular otherRegular notRelax

/-!
## Finished code
-/

/-- Sessions that agree are finished to code that differs in the offsets of groups only. -/
theorem finish_agrees
    {first second : Session}
    (agrees : first.Agrees second)
    (firstRegular : first.layout.Regular)
    (secondRegular : second.layout.Regular)
    {left right : EmittedCode}
    (leftFinishes : first.finish = .ok left)
    (rightFinishes : second.finish = .ok right) :
    right = { left with groupOffsets := right.groupOffsets } := by
  obtain ⟨leftStats, leftRelaxes, leftWrites⟩ := exists_relax_of_finish leftFinishes
  obtain ⟨rightStats, rightRelaxes, rightWrites⟩ := exists_relax_of_finish rightFinishes
  have firstSettled := firstRegular.settles (settles_of_relax leftRelaxes).1
  have secondSettled := secondRegular.settles (settles_of_relax rightRelaxes).1
  have sameRun : second.layout.relax second.config = second.layout.relax first.config := by
    rw [agrees.config]
  unfold relax at leftRelaxes rightRelaxes leftWrites rightWrites firstSettled secondSettled
  dsimp only at leftRelaxes rightRelaxes leftWrites rightWrites firstSettled secondSettled
  rw [sameRun] at rightRelaxes rightWrites secondSettled
  obtain ⟨rfl, settledAgrees⟩ :=
    agrees.layouts.relax firstRegular.wellFormed firstRegular.located
      secondRegular.wellFormed secondRegular.located leftRelaxes rightRelaxes
  rw [agrees.config, agrees.pool] at rightWrites
  exact settledAgrees.write_eq firstSettled secondSettled leftWrites rightWrites

/--
Sessions that carry out the same commands, refused ones included and none of them a
relaxation, but open groups at different moments, are finished to the same output
if both can be finished: only the offsets of the groups themselves may differ.
-/
theorem group_boundaries_invisible
    (config : Config)
    (commands others : List Command)
    (noRelax : Command.relax ∉ commands)
    (sameButGroups :
      commands.filter (· ≠ .newGroup) = others.filter (· ≠ .newGroup))
    {left right : EmittedCode}
    (leftFinishes : ((start config).run commands).finish = .ok left)
    (rightFinishes : ((start config).run others).finish = .ok right) :
    left.code = right.code ∧ left.data = right.data ∧ left.dataOffset = right.dataOffset ∧
      left.relocations = right.relocations ∧ left.labelOffsets = right.labelOffsets ∧
        left.targetOffsets = right.targetOffsets ∧ left.stats = right.stats := by
  have noRelaxOthers : Command.relax ∉ others := by
    intro member
    have kept : Command.relax ∈ others.filter (· ≠ .newGroup) :=
      List.mem_filter.mpr ⟨member, by decide⟩
    rw [← sameButGroups] at kept
    exact noRelax (List.mem_of_mem_filter kept)
  have toCommon := run_agrees_filter config noRelax
  have otherToCommon := run_agrees_filter config noRelaxOthers
  rw [← sameButGroups] at otherToCommon
  have same :=
    finish_agrees (toCommon.trans otherToCommon.symm) (regular_run_of_not_mem config noRelax)
      (regular_run_of_not_mem config noRelaxOthers) leftFinishes rightFinishes
  rw [same]
  exact ⟨rfl, rfl, rfl, rfl, rfl, rfl, rfl⟩

/--
A branch that becomes near over a far jump, a branch over its neighbour, a constant in
the data pool, an address of a label, a relocated call, and a label bound twice.
-/
def ungrouped : List Command :=
  [.newLabel, .newLabel, .branch .beq (.x 10) (.x 11) ⟨1⟩, .jump ⟨0⟩, .keepLong ⟨1⟩,
    .bindLabel ⟨0⟩, .branchRelative .bne (.x 10) (.x 11) 2, .labelAddress (.x 12) ⟨1⟩,
    .loadConstant (.x 13) 0x123456789abcdef, .bindLabel ⟨0⟩,
    .call (.x 1) (.relocated (.symbol "callee") 3), .bindLabel ⟨1⟩, .jump ⟨0⟩]

/-- The same commands among empty groups, and groups around single instructions. -/
def regrouped : List Command :=
  .newGroup :: ungrouped.take 3 ++ .newGroup :: (ungrouped.drop 3).take 3 ++
    .newGroup :: .newGroup :: (ungrouped.drop 6).take 3 ++
      .newGroup :: (ungrouped.drop 9).take 2 ++ .newGroup :: ungrouped.drop 11

/-- The groups of the two sessions start elsewhere, and all else is the same. -/
theorem group_boundaries_invisible_regrouped :
    let config : Config := { smallFunctionBytes := 12, branchGrowthReserve := 0x1000 }
    Command.relax ∉ ungrouped ∧
      ungrouped.filter (· ≠ .newGroup) = regrouped.filter (· ≠ .newGroup) ∧
        ∃ left right,
          ((start config).run ungrouped).finish = .ok left ∧
            ((start config).run regrouped).finish = .ok right ∧
              left.groupOffsets ≠ right.groupOffsets ∧ left.stats.upgrades = 2 ∧
                left.code = right.code ∧ left.relocations = right.relocations ∧
                  left.targetOffsets = right.targetOffsets ∧ left.stats = right.stats := by
  dsimp only
  have noRelax : Command.relax ∉ ungrouped := by decide +kernel
  have sameButGroups :
      ungrouped.filter (· ≠ .newGroup) = regrouped.filter (· ≠ .newGroup) := by decide +kernel
  have leftGroups :
      ((start { smallFunctionBytes := 12, branchGrowthReserve := 0x1000 }).run
        ungrouped).finish.map (fun emitted => (emitted.groupOffsets, emitted.stats.upgrades)) =
          .ok (#[0, 16, 44], 2) := by
    decide +kernel
  have rightGroups :
      ((start { smallFunctionBytes := 12, branchGrowthReserve := 0x1000 }).run
        regrouped).finish.map (fun emitted => emitted.groupOffsets) =
          .ok #[0, 0, 8, 16, 16, 16, 36, 44] := by
    decide +kernel
  obtain ⟨left, leftFinishes, leftIs⟩ := map_eq_ok_iff.mp leftGroups
  obtain ⟨right, rightFinishes, rightIs⟩ := map_eq_ok_iff.mp rightGroups
  obtain ⟨leftOffsets, upgrades⟩ := Prod.mk.inj leftIs
  obtain ⟨code, -, -, relocations, -, targets, stats⟩ :=
    group_boundaries_invisible _ ungrouped regrouped noRelax sameButGroups leftFinishes
      rightFinishes
  refine ⟨noRelax, sameButGroups, left, right, leftFinishes, rightFinishes, ?_, upgrades, code,
    relocations, targets, stats⟩
  rw [leftOffsets, rightIs]
  decide

end Rv64Codegen.Session
