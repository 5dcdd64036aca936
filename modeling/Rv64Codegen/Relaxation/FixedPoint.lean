import Rv64Codegen.Relaxation.Pass

namespace Rv64Codegen

/-!
# Relaxation

Passes are repeated until one of them changes nothing.  The number of passes is
limited by the configuration, or by twice the number of jumps and two more.
-/

/-- A summary of relaxation. -/
structure RelaxStats where
  /-- Passes, the last one without a change included. -/
  passes : Nat
  /-- Moves to a longer form. -/
  upgrades : Nat
  /-- Jumps that are in the near form at the end. -/
  near : Nat
  /-- Jumps that are in the far form at the end. -/
  far : Nat
  /-- The size of the code at the end. -/
  codeSize : Nat
  deriving Repr, DecidableEq

/-- What relaxation leaves behind. -/
structure RelaxRun where
  result : Except Failure RelaxStats
  layout : Layout
  notices : Array Notice

namespace Layout

/-- The number of jumps in a state. -/
def countState (layout : Layout) (state : JumpState) : Nat :=
  layout.jumps.countP fun jump => decide (jump.state = state)

/-- The summary of a layout in which nothing is left to change. -/
def relaxStats (layout : Layout) (passes upgrades : Nat) : RelaxStats where
  passes := passes
  upgrades := upgrades
  near := layout.countState (.long .near)
  far := layout.countState (.long .far)
  codeSize := layout.codeSize

/-- The number of passes that relaxation may take. -/
def passBudget (layout : Layout) (config : Config) : Nat :=
  config.maxRelaxPasses.getD (2 * layout.jumps.size + 2)

/--
Repeat passes until one changes nothing.  The last argument but one counts the
passes that are left of the budget.
-/
def relaxWithin
    (config : Config)
    (budget passes upgrades : Nat)
    (notices : Array Notice) :
    Nat → Layout → RelaxRun
  | 0, layout =>
      ⟨.error (.refused (.relaxationLimit budget)), layout, notices⟩
  | remaining + 1, layout =>
      let pass := Relaxation.runPass config layout
      match pass.result with
      | .error failure =>
          ⟨.error failure, pass.layout, notices ++ pass.notices⟩
      | .ok grown =>
          let codeSize := pass.layout.codeSize
          let notices := (notices ++ pass.notices).push
            (.passCompleted (passes + 1) grown codeSize)
          if config.maxCodeBytes < codeSize then
            ⟨.error (.refused (.resourceLimitExceeded "code bytes" config.maxCodeBytes)),
              pass.layout, notices⟩
          else if grown = 0 then
            ⟨.ok (pass.layout.relaxStats (passes + 1) (upgrades + grown)),
              pass.layout, notices⟩
          else
            relaxWithin config budget (passes + 1) (upgrades + grown) notices
              remaining pass.layout

/-- Relax all jumps of a layout. -/
def relax (layout : Layout) (config : Config) : RelaxRun :=
  let budget := layout.passBudget config
  relaxWithin config budget 0 0 #[] budget layout

end Layout

end Rv64Codegen
