import Rv64Codegen.Error

namespace Rv64Codegen

/-!
# Outcomes

A computation that may be refused is taken apart at its first step: it has a
result exactly when the first step has one and the rest has one from there.
-/

/-- Two steps give a result exactly when both do, the second from the first. -/
theorem bind_eq_ok_iff
    {step : Except ε α}
    {next : α → Except ε β}
    {result : β} :
    (step >>= next) = .ok result ↔
      ∃ middle, step = .ok middle ∧ next middle = .ok result := by
  cases step with
  | error cause =>
      simp [bind, Except.bind]
  | ok middle =>
      simp [bind, Except.bind]

/-- Two steps fail exactly when the first does, or the second from the first. -/
theorem bind_eq_error_iff
    {step : Except ε α}
    {next : α → Except ε β}
    {cause : ε} :
    (step >>= next) = .error cause ↔
      step = .error cause ∨
        ∃ middle, step = .ok middle ∧ next middle = .error cause := by
  cases step with
  | error other =>
      simp [bind, Except.bind]
  | ok middle =>
      simp [bind, Except.bind]

/-- A mapped computation gives a result exactly when the computation does. -/
theorem map_eq_ok_iff
    {step : Except ε α}
    {change : α → β}
    {result : β} :
    step.map change = .ok result ↔
      ∃ middle, step = .ok middle ∧ change middle = result := by
  cases step with
  | error cause =>
      simp [Except.map]
  | ok middle =>
      simp [Except.map]

theorem isOk_eq_true_iff {result : Except ε α} :
    result.isOk = true ↔ ∃ value, result = .ok value := by
  cases result with
  | error cause =>
      simp [Except.isOk, Except.toBool]
  | ok value =>
      simp [Except.isOk, Except.toBool]

namespace Failure

@[simp] theorem ofRefusal_ok (value : α) :
    ofRefusal (.ok value) = .ok value :=
  rfl

@[simp] theorem ofRefusal_error (cause : EmissionError) :
    ofRefusal (.error cause : Except EmissionError α) = .error (.refused cause) :=
  rfl

/-- Regarding refusals as failures keeps results. -/
@[simp] theorem ofRefusal_eq_ok_iff
    {result : Except EmissionError α}
    {value : α} :
    ofRefusal result = .ok value ↔ result = .ok value := by
  cases result <;> simp

/-- A failure that comes from a refusal names its cause. -/
@[simp] theorem ofRefusal_eq_error_iff
    {result : Except EmissionError α}
    {failure : Failure} :
    ofRefusal result = .error failure ↔
      ∃ cause, result = .error cause ∧ failure = .refused cause := by
  cases result with
  | error cause =>
      simp [eq_comm]
  | ok value =>
      simp

/-- An entry is found exactly when it is there. -/
@[simp] theorem ofMissing_eq_ok_iff
    {entry : Option α}
    {value : α} :
    ofMissing entry = .ok value ↔ entry = some value := by
  cases entry <;> simp [ofMissing]

end Failure

/-- Items are all read, one after the other, or nothing is. -/
theorem mapM_eq_some_iff
    {read : α → Option β}
    {values : List α}
    {results : List β} :
    values.mapM read = some results ↔ values.map read = results.map some := by
  induction values generalizing results with
  | nil =>
      cases results <;> simp
  | cons value values inductionHypothesis =>
      rw [List.mapM_cons, List.map_cons]
      cases results with
      | nil =>
          simp [Option.bind_eq_some_iff]
      | cons result results =>
          simp [Option.bind_eq_some_iff, ← inductionHypothesis]

end Rv64Codegen
