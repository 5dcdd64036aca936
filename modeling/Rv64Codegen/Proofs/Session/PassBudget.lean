import Rv64Codegen.Proofs.Relaxation.Growth
import Rv64Codegen.Proofs.Session.Changes

namespace Rv64Codegen

/-!
# The default number of passes is enough

A pass that goes on uses up room: it moves a jump to a longer form, and a
conditional branch has two of them, any other jump one.  The default limit is
above the room of all jumps.  The room only depends on the jumps themselves, so
neither margins nor thresholds nor a relaxation that has failed matter.
-/

namespace Jump

/-- Measures that agree one by one agree in total. -/
theorem total_congr
    {measure : Jump → Nat}
    {olds news : List Jump}
    (same : List.Forall₂ (fun old new => measure new = measure old) olds news) :
    total measure news = total measure olds := by
  induction same with
  | nil =>
      rfl
  | cons here _ inductionHypothesis =>
      rw [total, total, here, inductionHypothesis]

end Jump

namespace Relaxation

theorem resolve_ne_limit
    (labels : Array (Option GroupId))
    (own : Group)
    (jump : Jump)
    (limit : Nat) :
    resolve labels own jump ≠ .error (.relaxationLimit limit) := by
  unfold resolve
  split
  · split <;> simp
  · dsimp only
    split <;> simp

/-- A jump whose target is not found has another cause than the number of passes. -/
theorem bind_ne_limit
    (labels : Array (Option GroupId))
    (own : Group)
    (jump : Jump)
    (limit : Nat) :
    bind labels own jump ≠ .error (.relaxationLimit limit) := by
  unfold bind
  split
  · simp
  · split
    · rename_i cause refused
      intro isLimit
      cases isLimit
      exact resolve_ne_limit labels own jump limit refused
    · simp

namespace Sweep

theorem decideForm_ne_limit
    (sweep : Sweep)
    (setting : Setting)
    (pending : List Jump)
    (own : Group)
    (jump : Jump)
    (target : Resolved)
    (limit : Nat) :
    sweep.decideForm setting pending own jump target ≠
      .error (.refused (.relaxationLimit limit)) := by
  intro refused
  unfold decideForm at refused
  dsimp only at refused
  split at refused
  · split at refused
    · cases refused
    · obtain ⟨cause, chosen, isCause⟩ := Failure.ofRefusal_eq_error_iff.mp refused
      cases isCause
      unfold chooseForm at chosen
      dsimp only at chosen
      split at chosen <;> cases chosen
  · cases refused

theorem visit_ne_limit
    (sweep : Sweep)
    (setting : Setting)
    (pending : List Jump)
    (jump : Jump)
    (limit : Nat) :
    (sweep.visit setting pending jump).failure ≠ some (.refused (.relaxationLimit limit)) := by
  unfold visit
  dsimp only
  split
  · simp
  · split
    · rename_i cause refused
      intro isLimit
      cases isLimit
      exact bind_ne_limit _ _ _ _ refused
    · split
      · rename_i failure refused
        intro isLimit
        cases isLimit
        exact decideForm_ne_limit _ _ _ _ _ _ _ refused
      · simp

end Sweep

/-- No pass fails because of the number of passes. -/
theorem runPass_ne_limit
    (config : Config)
    (layout : Layout)
    (limit : Nat) :
    (runPass config layout).result ≠ .error (.refused (.relaxationLimit limit)) := by
  rcases @Sweep.walk_induction (.of config layout) (fun _ _ => True)
      (fun _ _ _ _ _ => trivial) layout.jumps.toList (.begin layout) trivial with
    ⟨final, -, walked⟩ | ⟨failure, before, jump, pending, -, fails, walked⟩
  · rw [(runPass_of_completed walked).1]
    intro isLimit
    cases (Layout.ifFits_eq_refused_iff.mp isLimit).2
  · rw [(runPass_of_stopped walked).1]
    intro isLimit
    cases (Layout.ifFits_eq_refused_iff.mp isLimit).2
    exact Sweep.visit_ne_limit _ _ _ _ _ fails

/-- A pass that reports growth moves a jump to a longer form. -/
theorem exists_longer_of_runPass
    {config : Config}
    {layout : Layout}
    {grown : Nat}
    (wellFormed : layout.WellFormed)
    (succeeds : (runPass config layout).result = .ok grown)
    (grew : grown ≠ 0) :
    ∃ (id : Nat) (old new : Jump),
      layout.jumps[id]? = some old ∧ (runPass config layout).layout.jumps[id]? = some new ∧
        old.form.rank < new.form.rank := by
  obtain ⟨-, rooms, -⟩ := accounts_of_runPass wellFormed succeeds
  obtain ⟨-, evolves⟩ := wellFormed_runPass config wellFormed
  -- If every jump kept its form, no room would be used up.
  apply Classical.byContradiction
  intro none
  have same :
      Layout.Pointwise (fun old new : Jump => new.room = old.room)
        layout.jumps (runPass config layout).layout.jumps := by
    refine ⟨evolves.jumps.size, ?_⟩
    intro id old found
    obtain ⟨new, foundNew, evolved⟩ := evolves.jumps.forward id old found
    have notLonger : ¬old.form.rank < new.form.rank :=
      fun longer => none ⟨id, old, new, found, foundNew, longer⟩
    exact ⟨new, foundNew, Jump.room_eq_of_rank_eq evolved.kind
      (Nat.le_antisymm (Nat.le_of_not_lt notLonger) evolved.rank)⟩
  have unchanged := Jump.total_congr same.forall₂
  omega

end Relaxation

namespace Layout

open Relaxation (runPass)

variable
  {config : Config}
  {layout : Layout}
  {budget passes upgrades remaining : Nat}
  {notices : Array Notice}

/-- With more passes than there is room for growth, the passes do not run out. -/
theorem relaxWithin_ne_limit
    (wellFormed : layout.WellFormed)
    (enough : Jump.total Jump.room layout.jumps.toList < remaining)
    (limit : Nat) :
    (relaxWithin config budget passes upgrades notices remaining layout).result ≠
      .error (.refused (.relaxationLimit limit)) := by
  induction remaining generalizing passes upgrades notices layout with
  | zero =>
      exact absurd enough (Nat.not_lt_zero _)
  | succ remaining inductionHypothesis =>
      rw [relaxWithin]
      dsimp only
      split
      · rename_i failure fails
        intro isLimit
        cases isLimit
        exact Relaxation.runPass_ne_limit config layout limit fails
      · rename_i grown pass
        obtain ⟨-, rooms, -⟩ := Relaxation.accounts_of_runPass wellFormed pass
        split
        · simp
        · split
          · simp
          · -- Each upgrade of the pass has taken some of the room.
            refine inductionHypothesis (Relaxation.wellFormed_runPass config wellFormed).1 ?_
            omega

/-- Relaxation that succeeds has made one pass more than there was room for, at most. -/
theorem passes_of_relaxWithin
    {stats : RelaxStats}
    (wellFormed : layout.WellFormed)
    (succeeds :
      (relaxWithin config budget passes upgrades notices remaining layout).result = .ok stats) :
    ∃ count,
      stats.passes = passes + count ∧
        count ≤ Jump.total Jump.room layout.jumps.toList + 1 ∧
          (relaxWithin config budget passes upgrades notices remaining layout).layout =
            layout.afterPasses config count := by
  induction remaining generalizing passes upgrades notices layout with
  | zero =>
      cases succeeds
  | succ remaining inductionHypothesis =>
      rw [relaxWithin] at succeeds ⊢
      dsimp only at succeeds ⊢
      split at succeeds
      · cases succeeds
      · rename_i grown pass
        obtain ⟨-, rooms, -⟩ := Relaxation.accounts_of_runPass wellFormed pass
        split at succeeds
        · cases succeeds
        · rename_i within
          rw [if_neg within]
          split at succeeds
          · rename_i quiet
            rw [if_pos quiet]
            cases succeeds
            exact ⟨1, rfl, Nat.le_add_left _ _, rfl⟩
          · rename_i grew
            rw [if_neg grew]
            obtain ⟨count, isCount, atMost, reached⟩ :=
              inductionHypothesis (Relaxation.wellFormed_runPass config wellFormed).1 succeeds
            exact ⟨count + 1, by omega, by omega, reached⟩

end Layout

namespace Session

/--
Without a limit of its own, relaxation never runs out of passes, whatever commands
came before.  A pass that reports growth moves some jump to a longer form, and a
relaxation that succeeds takes at most two passes for each conditional branch, one
for each other jump, and one more.
-/
theorem default_passes_suffice
    (config : Config)
    (unlimited : config.maxRelaxPasses = none)
    (commands : List Command) :
    let session := (start config).run commands
    let layout := session.layout
    (∀ limit, session.relax.1 ≠ .error (.refused (.relaxationLimit limit))) ∧
      (∀ count grown,
        (Relaxation.runPass config (layout.afterPasses config count)).result = .ok grown →
          grown ≠ 0 →
            ∃ (id : Nat) (old new : Jump),
              (layout.afterPasses config count).jumps[id]? = some old ∧
                (layout.afterPasses config (count + 1)).jumps[id]? = some new ∧
                  old.form.rank < new.form.rank) ∧
        ∀ stats,
          session.relax.1 = .ok stats →
            session.relax.2.layout = layout.afterPasses config stats.passes ∧
              stats.passes ≤
                2 * layout.jumps.countP (fun jump => jump.isConditional) +
                  layout.jumps.countP (fun jump => !jump.isConditional) + 1 := by
  intro session layout
  have wellFormed : layout.WellFormed := wellFormed_run config commands
  have sameConfig : session.config = config := config_run config commands
  have rooms := Jump.total_room_le layout.jumps.toList
  rw [Array.countP_toList, Array.countP_toList] at rooms
  refine ⟨?_, ?_, ?_⟩
  · intro limit
    have budget : session.layout.passBudget session.config = 2 * layout.jumps.size + 2 := by
      rw [Layout.passBudget, sameConfig, unlimited]
      rfl
    have kinds :
        layout.jumps.size =
          layout.jumps.countP (fun jump => jump.isConditional) +
            layout.jumps.countP fun jump => !jump.isConditional := by
      simpa using layout.jumps.size_eq_countP_add_countP (p := fun jump => jump.isConditional)
    exact Layout.relaxWithin_ne_limit wellFormed (by omega) limit
  · intro count grown succeeds grew
    have longer :=
      Relaxation.exists_longer_of_runPass (Layout.wellFormed_afterPasses config wellFormed count)
        succeeds grew
    rw [show layout.afterPasses config (count + 1) = _ from Function.iterate_succ_apply' ..]
    exact longer
  · intro stats succeeds
    obtain ⟨count, isCount, atMost, reached⟩ :=
      Layout.passes_of_relaxWithin wellFormed succeeds
    rw [Nat.zero_add] at isCount
    rw [isCount, ← sameConfig]
    exact ⟨reached, by omega⟩

/-- A far jump and a branch, relaxed too early, and another jump before the label is bound. -/
def relaxedTooEarly : List Command :=
  [.newLabel, .jump ⟨0⟩, .keepLong ⟨0⟩, .branch .beq (.x 10) (.x 11) ⟨0⟩, .relax, .jump ⟨0⟩,
    .bindLabel ⟨0⟩]

/--
The first relaxation fails, since the label is not bound yet.  The next one takes
three passes where five would be allowed.
-/
theorem default_passes_suffice_relaxedTooEarly :
    let config : Config := { smallFunctionBytes := 12, branchGrowthReserve := 0x1000 }
    let early := (start config).run (relaxedTooEarly.take 4)
    let session := (start config).run relaxedTooEarly
    config.maxRelaxPasses = none ∧
      early.relax.1 = .error (.refused (.unresolvedTarget ⟨0⟩)) ∧
      (∀ limit, session.relax.1 ≠ .error (.refused (.relaxationLimit limit))) ∧
      ∃ stats,
        session.relax.1 = .ok stats ∧ stats.passes = 3 ∧
          stats.passes ≤
            2 * session.layout.jumps.countP (fun jump => jump.isConditional) +
              session.layout.jumps.countP (fun jump => !jump.isConditional) + 1 := by
  dsimp only
  have relaxes :
      ((start { smallFunctionBytes := 12, branchGrowthReserve := 0x1000 }).run
        relaxedTooEarly).relax.1.map (·.passes) = .ok 3 := by
    decide +kernel
  obtain ⟨stats, succeeds, passes⟩ := map_eq_ok_iff.mp relaxes
  obtain ⟨never, -, bounded⟩ :=
    default_passes_suffice { smallFunctionBytes := 12, branchGrowthReserve := 0x1000 } rfl
      relaxedTooEarly
  refine ⟨rfl, ?_, never, stats, succeeds, passes, (bounded stats succeeds).2⟩
  decide +kernel

end Session

end Rv64Codegen
