import Rv64Codegen.Proofs.Output.Jump
import Rv64Codegen.Proofs.Session.Finish

namespace Rv64Codegen

/-!
# Jumps land on their targets

In finished code every jump, in whatever form relaxation has left it, transfers
control to its target exactly when the front end's condition holds.
-/

namespace Layout

/-- The target of a jump, as the front end wrote it, has an offset in finished code. -/
def LandsAt
    (layout : Layout)
    (emitted : EmittedCode)
    (jump : Jump)
    (offset : Nat) :
    Prop :=
  match jump.target with
  | .label label =>
      emitted.labelOffset? label = some offset
  | .relative count =>
      ∃ (own : Group) (position : Nat),
        layout.groups[jump.group.index]? = some own ∧
          (position : Int) = (jump.descriptor - own.first : Nat) + 1 + count ∧
            ((position < own.count ∧
                layout.descriptorOffsets[own.first + position]? = some offset) ∨
              (position = own.count ∧ offset = own.stop))

namespace Finished

variable
  {layout : Layout}
  {pool : DataPool}
  {scratch : Register}
  {emitted : EmittedCode}

theorem startOf_le_size
    (finished : layout.Finished pool scratch emitted)
    {place : Nat}
    (inside : place ≤ layout.descriptors.size) :
    startOf layout.descriptors place ≤ emitted.code.size := by
  rw [finished.size]
  exact startOf_mono _ inside

/-- The place that a jump goes to has the offset of the target it was given. -/
theorem landsAt
    (finished : layout.Finished pool scratch emitted)
    (wellFormed : layout.WellFormed)
    {id : Nat}
    {jump : Jump}
    {resolved : Resolved}
    {place : Nat}
    (found : layout.jumps[id]? = some jump)
    (isResolved : jump.resolved = some resolved)
    (aims : layout.Aims jump place resolved) :
    layout.LandsAt emitted jump (startOf layout.descriptors place) := by
  have resolves := (wellFormed.holds id jump found).resolved resolved isResolved
  cases resolved with
  | group target =>
      obtain ⟨label, asked, isBound⟩ := resolves
      obtain ⟨group, foundGroup, rfl⟩ := aims
      rw [LandsAt, asked]
      dsimp only
      rw [finished.labelOffset?_eq isBound foundGroup,
        finished.placed target.index group foundGroup]
  | inGroup position =>
      obtain ⟨count, own, asked, foundOwn, counted, inside⟩ := resolves
      obtain ⟨again, foundAgain, rfl⟩ := aims
      rw [foundOwn] at foundAgain
      cases foundAgain
      rw [LandsAt, asked]
      refine ⟨own, position, foundOwn, counted, ?_⟩
      rcases Nat.lt_or_eq_of_le inside with before | atEnd
      · refine Or.inl ⟨before, ?_⟩
        rw [descriptorOffsets_eq wellFormed.partitioned finished.placed]
        apply getElem?_starts
        have insideAll := wellFormed.partitioned.last_le_size foundOwn
        unfold Group.last at insideAll
        omega
      · refine Or.inr ⟨atEnd, ?_⟩
        rw [wellFormed.partitioned.stop_eq finished.placed foundOwn, Group.last, atEnd]

/-- Every jump of finished code has a known target and executes as it should. -/
theorem exists_executes
    (finished : layout.Finished pool scratch emitted)
    (wellFormed : layout.WellFormed)
    (small : emitted.code.size < UInt64.size)
    {id : Nat}
    {jump : Jump}
    (found : layout.jumps[id]? = some jump) :
    ∃ resolved place,
      jump.resolved = some resolved ∧ layout.Aims jump place resolved ∧
        place ≤ layout.descriptors.size ∧
          ∀ machine : Machine,
            machine.image = emitted.image →
              machine.pc = UInt64.ofNat (startOf layout.descriptors jump.descriptor) →
                (∀ number, jump.scratch? scratch = some number → number ≠ 0) →
                  jump.Executes scratch (startOf layout.descriptors jump.descriptor)
                    (startOf layout.descriptors place) machine := by
  obtain ⟨described, -, sound, form, -, -⟩ := wellFormed.holds id jump found
  obtain ⟨instructions, words, expanded, encoded, -, inside, stand⟩ :=
    finished.wordsAt described
  obtain ⟨again, foundAgain, expanded⟩ := bind_eq_ok_iff.mp expanded
  rw [Failure.ofMissing_eq_ok_iff] at foundAgain
  obtain rfl : jump = again := Option.some.inj (found.symm.trans foundAgain)
  obtain ⟨target, isTarget, expanded⟩ := bind_eq_ok_iff.mp expanded
  rw [Failure.ofRefusal_eq_ok_iff, Placement.expandJump_eq_ok_iff sound form] at expanded
  cases isResolved : jump.resolved with
  | none =>
      obtain ⟨own, -, refused⟩ := bind_eq_ok_iff.mp isTarget
      rw [isResolved] at refused
      cases refused
  | some resolved =>
      have resolves := (wellFormed.holds id jump found).resolved resolved isResolved
      obtain ⟨place, aims, inPlace⟩ := wellFormed.exists_aims resolves
      rw [wellFormed.targetOffset_eq finished.placed _ _ found isResolved aims] at isTarget
      cases isTarget
      refine ⟨resolved, place, rfl, aims, inPlace, ?_⟩
      intro machine image atPc usable
      have aligned := wellFormed.startOf_mod_four place
      have placeSmall := finished.startOf_le_size inPlace
      refine expanded.executes sound encoded ?_ atPc ?_ ?_ ?_ usable
      · rw [image]
        exact stand
      · exact Nat.lt_of_le_of_lt inside small
      · omega
      · exact Nat.lt_of_le_of_lt placeSmall small

end Finished

end Layout

/-- The jump that a command asks for. -/
def Command.jump? : Command → Option (JumpKind × JumpTarget)
  | .branch op rs1 rs2 label =>
      some (.conditional op rs1 rs2, .label label)
  | .branchRelative op rs1 rs2 count =>
      some (.conditional op rs1 rs2, .relative count)
  | .jal rd label =>
      some (.jal rd, .label label)
  | .jump label =>
      some (.jal .zero, .label label)
  | _ =>
      none

namespace Session

/-- A jump that a command has entered is the one that the command asks for. -/
theorem perform_jump
    {session : Session}
    {command : Command}
    {kind : JumpKind}
    {target : JumpTarget}
    {id : JumpId}
    (asks : command.jump? = some (kind, target))
    (replies : (session.perform command).1 = .ok (.jump id)) :
    ∃ jump,
      (session.perform command).2.layout.jumps[id.index]? = some jump ∧
        jump.kind = kind ∧ jump.target = target := by
  have entered
      {checked : Except EmissionError JumpKind}
      (isKind : ∀ checkedKind, checked = .ok checkedKind → checkedKind = kind)
      (accepted :
        (answer .jump (session.appendJumpChecked checked target)).1 = .ok (.jump id)) :
      ∃ jump,
        (session.appendJumpChecked checked target).2.layout.jumps[id.index]? = some jump ∧
          jump.kind = kind ∧ jump.target = target := by
    obtain ⟨number, accepted, isNumber⟩ := map_eq_ok_iff.mp accepted
    cases isNumber
    obtain ⟨checkedKind, isChecked, rfl, after⟩ := appendJumpChecked_eq_ok accepted
    rw [after]
    refine ⟨_, Array.getElem?_push_size, isKind checkedKind isChecked, rfl⟩
  cases command <;> cases asks
  · exact entered (fun _ checked => (Request.branch_eq_ok checked).1) replies
  · exact entered (fun _ checked => (Request.branch_eq_ok checked).1) replies
  · exact entered (fun _ checked => (Request.jal_eq_ok checked).1) replies
  · exact entered (fun _ checked => (Request.jal_eq_ok checked).1) replies

/--
Every jump of finished code lands on its target.  The code may have been written
with any commands, also with ones that failed, and relaxation may have failed in
between.  All offsets fit, whatever the limit on the size of the code.  Jumps are
those that the front end has asked for.  Each of them, executed at its offset, goes
to its target exactly when its condition holds and to the following descriptor
otherwise, links the offset behind it, and changes no other register but the
scratch register of a far form that does not link.
-/
theorem jumps_land_on_targets
    (config : Config)
    (commands : List Command)
    (emitted : EmittedCode)
    (finishes : ((start config).run commands).finish = .ok emitted) :
    let final := ((start config).run commands).relax.2.layout
    emitted.code.size < offsetRange ∧
      (∀ front command back kind target id,
        commands = front ++ command :: back →
          command.jump? = some (kind, target) →
            (((start config).run front).perform command).1 = .ok (.jump id) →
              ∃ jump,
                final.jumps[id.index]? = some jump ∧
                  jump.kind = kind ∧ jump.target = target) ∧
      ∀ (id : Nat) (jump : Jump),
        final.jumps[id]? = some jump →
          ∃ offset target,
            final.descriptorOffsets[jump.descriptor]? = some offset ∧
              final.LandsAt emitted jump target ∧
                ∀ machine : Machine,
                  machine.image = emitted.image →
                    machine.pc = UInt64.ofNat offset →
                      (∀ number, jump.scratch? config.longJumpScratch = some number →
                        number ≠ 0) →
                        jump.Executes config.longJumpScratch offset target machine := by
  intro final
  have wellFormed := wellFormed_run config commands
  have finalWellFormed : final.WellFormed := wellFormed_relax wellFormed
  have fits := size_lt_of_finish wellFormed finishes
  refine ⟨fits, ?_, ?_⟩
  · intro front command back kind target id isSplit asks replies
    obtain ⟨jump, found, isKind, isTarget⟩ := perform_jump asks replies
    have foundAfter :
        ((start config).run (front ++ [command])).layout.jumps[id.index]? = some jump := by
      rw [run_append]
      exact found
    obtain ⟨later, foundLater, sameKind, sameTarget⟩ := exists_jump_relax back foundAfter
    rw [List.append_assoc, List.singleton_append, ← isSplit] at foundLater
    exact ⟨later, foundLater, sameKind.trans isKind, sameTarget.trans isTarget⟩
  · intro id jump found
    obtain ⟨-, finished⟩ := finish_eq_ok wellFormed finishes
    have small : emitted.code.size < UInt64.size := Nat.lt_trans fits (by decide)
    rw [config_run] at finished
    obtain ⟨resolved, place, isResolved, aims, -, executes⟩ :=
      finished.exists_executes finalWellFormed small found
    obtain ⟨inside, -⟩ :=
      Array.getElem?_eq_some_iff.mp (finalWellFormed.holds id jump found).described
    refine ⟨_, _, ?_, finished.landsAt finalWellFormed found isResolved aims, executes⟩
    rw [Layout.descriptorOffsets_eq finalWellFormed.partitioned finished.placed]
    exact Layout.getElem?_starts inside

/--
Jumps of every kind around a label that is bound late, with relaxation that fails
before it is bound.
-/
def mixedJumps : List Command :=
  [.newLabel, .branch .blt (.x 10) (.x 11) ⟨0⟩, .relax, .keepLong ⟨0⟩, .jal .ra ⟨0⟩,
    .branchRelative .bne (.x 10) .zero (-3), .jump ⟨0⟩, .keepLong ⟨3⟩, .bindLabel ⟨0⟩,
    .immediate .addi (.x 10) (.x 10) 1]

theorem jumps_land_on_targets_mixedJumps :
    ((start {}).run (mixedJumps.take 2)).relax.1 =
        .error (.refused (.unresolvedTarget ⟨0⟩)) ∧
      ∃ emitted jump,
        ((start {}).run mixedJumps).finish = .ok emitted ∧
          ((start {}).run mixedJumps).relax.2.layout.jumps[0]? = some jump ∧
            jump.kind = .conditional .blt (.x 10) (.x 11) ∧ jump.form = .far ∧
              emitted.labelOffset? ⟨0⟩ = some 28 ∧
                ∀ machine : Machine,
                  machine.image = emitted.image →
                    machine.pc = UInt64.ofNat 0 → jump.Executes .ra 0 28 machine := by
  have finishes :
      ((start {}).run mixedJumps).finish.map (·.labelOffset? ⟨0⟩) = .ok (some 28) := by
    decide +kernel
  have isFar :
      ((start {}).run mixedJumps).relax.2.layout.jumps[0]?.map
          (fun jump => (jump.form, jump.descriptor)) =
        some (.far, 0) := by
    decide +kernel
  have first :
      ((start {}).run mixedJumps).relax.2.layout.descriptorOffsets[0]? = some 0 := by
    decide +kernel
  obtain ⟨emitted, finishes, labelOffset⟩ := map_eq_ok_iff.mp finishes
  obtain ⟨-, asked, lands⟩ := jumps_land_on_targets {} mixedJumps emitted finishes
  obtain ⟨jump, found, kind, target⟩ :=
    asked [.newLabel] (.branch .blt (.x 10) (.x 11) ⟨0⟩) (mixedJumps.drop 2) _ _ ⟨0⟩
      rfl rfl (by decide +kernel)
  obtain ⟨offset, place, atOffset, landsAt, executes⟩ := lands 0 jump found
  rw [found, Option.map_some, Option.some.injEq, Prod.mk.injEq] at isFar
  rw [isFar.2, first] at atOffset
  rw [Layout.LandsAt, target] at landsAt
  cases atOffset
  cases labelOffset.symm.trans landsAt
  refine ⟨by decide +kernel, emitted, jump, finishes, found, kind, isFar.1,
    labelOffset, fun machine image atPc => executes machine image atPc ?_⟩
  intro number uses
  rw [Jump.scratch?, isFar.1, kind] at uses
  cases uses
  decide

end Session

end Rv64Codegen
