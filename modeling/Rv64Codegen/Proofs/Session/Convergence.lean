import Rv64Codegen.Proofs.Relaxation.Margin
import Rv64Codegen.Proofs.Session.Regularity

namespace Rv64Codegen

/-!
# The number of passes

In a program that has not been relaxed before, all jumps are short.  The first
pass that checks distances is then final if the reserve pays for the growth of a
jump, and one more pass finds nothing to do.  Only a pass over a small program,
which checks nothing, can come before it and move the jumps that are kept long.
-/

namespace Layout

open Relaxation (runPass)

variable
  {config : Config}
  {layout : Layout}
  {budget passes upgrades remaining : Nat}
  {notices : Array Notice}
  {stats : RelaxStats}

/-- Relaxation that succeeds makes a pass, and goes on if some jump has grown in it. -/
theorem exists_pass_of_relaxWithin
    (succeeds :
      (relaxWithin config budget passes upgrades notices remaining layout).result = .ok stats) :
    ∃ grown,
      (runPass config layout).result = .ok grown ∧
        ((grown = 0 ∧ stats.passes = passes + 1) ∨
          (grown ≠ 0 ∧
            ∃ laterUpgrades laterNotices fewer,
              (relaxWithin config budget (passes + 1) laterUpgrades laterNotices fewer
                (runPass config layout).layout).result = .ok stats)) := by
  cases remaining with
  | zero =>
      cases succeeds
  | succ remaining =>
      rw [relaxWithin] at succeeds
      dsimp only at succeeds
      split at succeeds
      · cases succeeds
      · rename_i grown pass
        refine ⟨grown, pass, ?_⟩
        split at succeeds
        · cases succeeds
        · split at succeeds
          · rename_i quiet
            cases succeeds
            exact Or.inl ⟨quiet, rfl⟩
          · rename_i grew
            exact Or.inr ⟨grew, _, _, _, succeeds⟩

/-- One pass is enough when all jumps have the forms they want. -/
theorem passes_eq_of_secures
    (regular : layout.Regular)
    (wanted : ∀ jump ∈ layout.jumps, jump.wanted = jump.form)
    (secures :
      config.smallFunctionBytes < layout.codeSize →
        ∀ jump ∈ layout.jumps, layout.Secures config.branchGrowthReserve jump)
    (succeeds :
      (relaxWithin config budget passes upgrades notices remaining layout).result = .ok stats) :
    stats.passes = passes + 1 := by
  obtain ⟨grown, pass, ⟨-, isCount⟩ | ⟨grew, -⟩⟩ := exists_pass_of_relaxWithin succeeds
  · exact isCount
  · exact absurd
      (Relaxation.runPass_quiet regular.wellFormed regular.located wanted secures pass) grew

/-- A pass that checks distances is followed by one more at most. -/
theorem passes_le_of_checked
    (regular : layout.Regular)
    (enough : 8 ≤ config.branchGrowthReserve)
    (notNear : ∀ jump ∈ layout.jumps, jump.form ≠ .near)
    (checked : config.smallFunctionBytes < layout.codeSize)
    (succeeds :
      (relaxWithin config budget passes upgrades notices remaining layout).result = .ok stats) :
    stats.passes ≤ passes + 2 := by
  obtain ⟨grown, pass, ⟨-, isCount⟩ | ⟨-, laterUpgrades, laterNotices, fewer, rest⟩⟩ :=
    exists_pass_of_relaxWithin succeeds
  · omega
  · have wanted :=
      Relaxation.wanted_eq_form_of_runPass regular.wellFormed regular.located pass
    have secures :=
      Relaxation.secures_runPass regular.wellFormed regular.located enough notNear checked pass
    have isCount := passes_eq_of_secures (regular.runPass pass) wanted (fun _ => secures) rest
    omega

/-- A pass that checks nothing is followed by two more at most. -/
theorem passes_le_of_unchecked
    (regular : layout.Regular)
    (enough : 8 ≤ config.branchGrowthReserve)
    (notNear : ∀ jump ∈ layout.jumps, jump.form ≠ .near)
    (unchecked : ¬config.smallFunctionBytes < layout.codeSize)
    (succeeds :
      (relaxWithin config budget passes upgrades notices remaining layout).result = .ok stats) :
    stats.passes ≤ passes + 3 := by
  obtain ⟨grown, pass, ⟨-, isCount⟩ | ⟨-, laterUpgrades, laterNotices, fewer, rest⟩⟩ :=
    exists_pass_of_relaxWithin succeeds
  · omega
  · by_cases checkedLater : config.smallFunctionBytes < (runPass config layout).layout.codeSize
    · have stillNotNear :=
        Relaxation.form_ne_near_of_unchecked regular.wellFormed regular.located notNear unchecked
          pass
      have atMost :=
        passes_le_of_checked (regular.runPass pass) enough stillNotNear checkedLater rest
      omega
    · have wanted :=
        Relaxation.wanted_eq_form_of_runPass regular.wellFormed regular.located pass
      have isCount :=
        passes_eq_of_secures (regular.runPass pass) wanted
          (fun checked => absurd checked checkedLater) rest
      omega

end Layout

namespace Session

/-- Without relaxation, relaxation has seen no jump. -/
theorem Changes.unseen
    {terms : Terms}
    {before after : Session}
    (changes : Changes terms before after)
    (unrelaxed : ∀ answer, ¬ terms.accepts answer)
    (unseen : ∀ jump ∈ before.layout.jumps, jump.state = .shortUnbound) :
    ∀ jump ∈ after.layout.jumps, jump.state = .shortUnbound := by
  induction changes with
  | refl =>
      exact unseen
  | @tail middle after _ change kept =>
      cases change with
      | jump kind target sound room =>
          intro jump member
          rcases Array.mem_push.mp member with old | rfl
          · exact kept jump old
          · rfl
      | keepLong id =>
          have same :
              Layout.Pointwise (fun old new : Jump => new.state = old.state)
                middle.layout.jumps
                (middle.layout.jumps.modify id.index ({ · with keepLong := true })) :=
            Layout.Pointwise.modify (by intro; rfl) _ _ (by intros; rfl)
          intro jump member
          obtain ⟨old, known, state⟩ := same.exists_of_mem member
          rw [state]
          exact kept old known
      | relax accepted =>
          exact absurd accepted (unrelaxed _)
      | _ =>
          exact kept

/--
The first relaxation of a program takes three passes at most if the reserve is
eight bytes or more.  It takes two at most if no jump is kept long, or if the
program is not small.
-/
theorem first_relaxation_passes
    (config : Config)
    (commands : List Command)
    (unrelaxed : Command.relax ∉ commands)
    (enough : 8 ≤ config.branchGrowthReserve)
    {stats : RelaxStats}
    (succeeds : ((start config).run commands).relax.1 = .ok stats) :
    let layout := ((start config).run commands).layout
    stats.passes ≤ 3 ∧
      ((∀ jump ∈ layout.jumps, jump.keepLong = false) ∨
          config.smallFunctionBytes < layout.codeSize →
        stats.passes ≤ 2) := by
  intro layout
  have notAmong (front back : List Command) : commands ≠ front ++ .relax :: back := by
    rintro rfl
    exact unrelaxed (by simp)
  have regular : layout.Regular :=
    regular_run fun front back split => absurd split (notAmong front back)
  have changes :
      Changes { accepts := fun _ => False } (start config) ((start config).run commands) :=
    run_changes_accepting fun front back split => absurd split (notAmong front back)
  have short (jump : Jump) (member : jump ∈ layout.jumps) : jump.form = .short := by
    have state :=
      Changes.unseen changes (fun _ => not_false)
        (fun other isOther => absurd isOther (Array.not_mem_empty other)) jump member
    rw [Jump.form, state]
  have notNear (jump : Jump) (member : jump ∈ layout.jumps) : jump.form ≠ .near := by
    rw [short jump member]
    simp
  have relaxes :
      (layout.relaxWithin config (layout.passBudget config) 0 0 #[]
        (layout.passBudget config)).result = .ok stats := by
    have sameConfig := config_run config commands
    unfold relax Layout.relax at succeeds
    rw [sameConfig] at succeeds
    exact succeeds
  by_cases checked : config.smallFunctionBytes < layout.codeSize
  · have atMost := Layout.passes_le_of_checked regular enough notNear checked relaxes
    exact ⟨by omega, fun _ => by omega⟩
  · have atMost := Layout.passes_le_of_unchecked regular enough notNear checked relaxes
    refine ⟨by omega, ?_⟩
    rintro (noneKept | checkedAnyway)
    · have wanted (jump : Jump) (member : jump ∈ layout.jumps) : jump.wanted = jump.form := by
        rw [Jump.wanted, noneKept jump member]
        rfl
      have isCount :=
        Layout.passes_eq_of_secures regular wanted (fun small => absurd small checked) relaxes
      omega
    · exact absurd checkedAnyway checked

/-- A far jump, and behind it a branch over a jump that may grow. -/
def branchOverJump : List Command :=
  [.newLabel, .jump ⟨0⟩, .keepLong ⟨0⟩, .branch .beq (.x 10) (.x 11) ⟨0⟩, .jump ⟨0⟩,
    .bindLabel ⟨0⟩]

/--
The three passes are needed: the code is small until the far jump has grown, and
only the second pass sees that the margin of the branch is out of its range.
-/
theorem first_relaxation_passes_branchOverJump :
    let config : Config := { smallFunctionBytes := 12, branchGrowthReserve := 0x1000 }
    let session := (start config).run branchOverJump
    Command.relax ∉ branchOverJump ∧ 8 ≤ config.branchGrowthReserve ∧
      ∃ stats, session.relax.1 = .ok stats ∧ stats.passes = 3 ∧ stats.passes ≤ 3 := by
  intro config session
  have relaxes : session.relax.1.map (·.passes) = .ok 3 := by
    decide +kernel
  obtain ⟨stats, succeeds, passes⟩ := map_eq_ok_iff.mp relaxes
  have unrelaxed : Command.relax ∉ branchOverJump := by
    decide
  exact ⟨unrelaxed, by decide, stats, succeeds, passes,
    (first_relaxation_passes config branchOverJump unrelaxed (by decide) succeeds).1⟩

end Session

end Rv64Codegen
