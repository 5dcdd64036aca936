import Mathlib.Logic.Function.Iterate
import Rv64Codegen.Proofs.Relaxation.Passes

namespace Rv64Codegen.Layout

/-!
# Relaxation as repeated passes

Relaxation that succeeds has run passes up to one in which no jump grew, with
code within its limit.  At that fixed point every jump reaches its target.  The
passes cannot run out: each pass but the last moves some jump to a longer form,
and a jump moves twice at most.
-/

open Relaxation (runPass)

/-- Passes lead from a layout to one in which a pass lets no jump grow. -/
inductive Settles (config : Config) : Layout → Layout → Prop where
  | quiet
      {layout : Layout}
      (pass : (runPass config layout).result = .ok 0) :
      Settles config layout (runPass config layout).layout
  | grown
      {layout settled : Layout}
      {grown : Nat}
      (pass : (runPass config layout).result = .ok grown)
      (isGrown : grown ≠ 0)
      (rest : Settles config (runPass config layout).layout settled) :
      Settles config layout settled

/-- A layout after a number of passes. -/
def afterPasses
    (config : Config)
    (layout : Layout)
    (count : Nat) :
    Layout :=
  Nat.iterate (fun layout => (runPass config layout).layout) count layout

theorem wellFormed_afterPasses
    (config : Config)
    {layout : Layout}
    (wellFormed : layout.WellFormed)
    (count : Nat) :
    (layout.afterPasses config count).WellFormed := by
  induction count generalizing layout with
  | zero =>
      exact wellFormed
  | succ count inductionHypothesis =>
      exact inductionHypothesis (Relaxation.wellFormed_runPass config wellFormed).1

variable
  {config : Config}
  {layout settled : Layout}

/-- The fixed point of relaxation fits. -/
theorem Settles.fits (settles : Settles config layout settled) :
    settled.fits = true := by
  induction settles with
  | quiet pass =>
      exact Relaxation.fits_of_runPass_eq_ok pass
  | grown _ _ _ inductionHypothesis =>
      exact inductionHypothesis

theorem Settles.evolves
    (settles : Settles config layout settled)
    (wellFormed : layout.WellFormed) :
    settled.WellFormed ∧ layout.Evolves settled := by
  induction settles with
  | quiet _ =>
      exact Relaxation.wellFormed_runPass config wellFormed
  | grown _ _ _ inductionHypothesis =>
      obtain ⟨kept, evolves⟩ := Relaxation.wellFormed_runPass config wellFormed
      obtain ⟨settledWellFormed, further⟩ := inductionHypothesis kept
      exact ⟨settledWellFormed, evolves.trans further⟩

/-- At the fixed point everything is in place and every jump reaches its target. -/
theorem Settles.reached
    (settles : Settles config layout settled)
    (small : config.smallFunctionBytes ≤ 0xfff)
    (wellFormed : layout.WellFormed)
    (located : layout.Located) :
    settled.Located ∧
      ∀ (id : Nat) (jump : Jump), settled.jumps[id]? = some jump → settled.Reached jump := by
  induction settles with
  | quiet pass =>
      obtain ⟨inPlace, -, reached⟩ := Relaxation.runPass_eq_ok wellFormed located small pass
      exact ⟨inPlace, reached rfl⟩
  | grown pass _ _ inductionHypothesis =>
      obtain ⟨inPlace, -, -⟩ := Relaxation.runPass_eq_ok wellFormed located small pass
      exact inductionHypothesis (Relaxation.wellFormed_runPass config wellFormed).1 inPlace

/-- Relaxation that succeeds ends at the fixed point, within the limit, and reports on it. -/
theorem relaxWithin_eq_ok
    {budget passes upgrades : Nat}
    {notices : Array Notice}
    {remaining : Nat}
    {stats : RelaxStats}
    (succeeds :
      (relaxWithin config budget passes upgrades notices remaining layout).result = .ok stats) :
    let relaxed := (relaxWithin config budget passes upgrades notices remaining layout).layout
    Settles config layout relaxed ∧ relaxed.codeSize ≤ config.maxCodeBytes ∧
      stats = relaxed.relaxStats stats.passes stats.upgrades := by
  induction remaining generalizing passes upgrades notices layout with
  | zero =>
      cases succeeds
  | succ remaining inductionHypothesis =>
      rw [relaxWithin] at succeeds ⊢
      dsimp only at succeeds ⊢
      split at succeeds
      · cases succeeds
      · rename_i grown pass
        split at succeeds
        · cases succeeds
        · rename_i within
          rw [if_neg within]
          split at succeeds
          · rename_i quiet
            rw [if_pos quiet]
            cases succeeds
            exact ⟨.quiet (quiet ▸ pass), Nat.le_of_not_lt within, rfl⟩
          · rename_i grew
            rw [if_neg grew]
            obtain ⟨settles, codeSize, isStats⟩ := inductionHypothesis succeeds
            exact ⟨.grown pass grew settles, codeSize, isStats⟩

/-- Relaxation that does not break leaves a layout that fits, also where it is refused. -/
theorem fits_relaxWithin
    {budget passes upgrades : Nat}
    {notices : Array Notice}
    {remaining : Nat}
    (fits : layout.fits = true)
    (unbroken :
      (relaxWithin config budget passes upgrades notices remaining layout).result ≠
        .error .broken) :
    (relaxWithin config budget passes upgrades notices remaining layout).layout.fits = true := by
  induction remaining generalizing passes upgrades notices layout with
  | zero =>
      exact fits
  | succ remaining inductionHypothesis =>
      rw [relaxWithin] at unbroken ⊢
      dsimp only at unbroken ⊢
      cases pass : (runPass config layout).result with
      | error failure =>
          rw [pass] at unbroken
          refine Relaxation.fits_of_runPass ?_
          rw [pass]
          exact fun isBroken => unbroken (congrArg Except.error (Except.error.inj isBroken))
      | ok grown =>
          rw [pass] at unbroken
          dsimp only at unbroken ⊢
          have fitsNext : (runPass config layout).layout.fits = true :=
            Relaxation.fits_of_runPass_eq_ok pass
          split at unbroken
          · rename_i tooLarge
            rw [if_pos tooLarge]
            exact fitsNext
          · rename_i within
            rw [if_neg within]
            split at unbroken
            · rename_i quiet
              rw [if_pos quiet]
              exact fitsNext
            · rename_i grew
              rw [if_neg grew]
              exact inductionHypothesis fitsNext unbroken

end Rv64Codegen.Layout
