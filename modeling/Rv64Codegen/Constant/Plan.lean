import Rv64Codegen.Config
import Rv64Codegen.Constant.Synthesis
import Rv64Codegen.Notice

namespace Rv64Codegen.Constant

/-!
# Plans for constants

A constant is built in its register when its sequence is short enough.  Where
the data pool is in reach a longer one is loaded from there; elsewhere it is
refused.
-/

/-- How a constant gets into its register. -/
inductive Plan where
  | inline (sequence : Sequence)
  | pool
  deriving Repr, DecidableEq

/-- Decide how a constant gets into its register. -/
def plan
    (value : Int64)
    (limits : ConstantLimits)
    (poolAllowed : Bool) :
    Except Failure Plan :=
  match synthesize value limits.srliMinSpan with
  | none =>
      .error .broken
  | some sequence =>
      if poolAllowed then
        if limits.preferredMax < sequence.length then
          .ok .pool
        else
          .ok (.inline sequence)
      else if limits.absoluteMax < sequence.length then
        .error (.refused (.materializeOverflow value sequence.length limits.absoluteMax))
      else
        .ok (.inline sequence)

/-- What is reported when a constant is synthesized. -/
def synthesisNotices (value : Int64) (minSpan : Nat) : List Notice :=
  if prefersShifted value minSpan then
    [.shiftedForm value (shiftedSteps value).length (directSteps value).length]
  else
    []

/-- What is reported when a constant is planned. -/
def planNotices
    (value : Int64)
    (limits : ConstantLimits)
    (poolAllowed : Bool) :
    List Notice :=
  synthesisNotices value limits.srliMinSpan ++
    match plan value limits poolAllowed with
    | .ok (.inline sequence) =>
        [.inlineConstant value sequence]
    | .ok .pool =>
        [.pooledConstant value
          (synthesisSteps value limits.srliMinSpan).length limits.preferredMax]
    | .error _ =>
        []

end Rv64Codegen.Constant
