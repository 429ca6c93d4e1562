/-
# Verdicts

Why a run has stopped.  Task, status and failure are all read off the verdict, so
that they cannot contradict one another.

* `Verdict` : the ways in which a run stops;
* `flaw?` : the verdict on an answer that is not finite.
-/
import Descent.Config.Validity
import Descent.LineSearch.Run
import Descent.Optimizer.Task

namespace Descent

open Scalar

/-- Why a run has stopped. -/
inductive Verdict (α : Type) where
  /-- The accepted point is stationary within the tolerances. -/
  | converged
  /-- As many steps were accepted as are allowed. -/
  | iterationsSpent
  /-- As many evaluations were made as are allowed. -/
  | evaluationsSpent
  /-- The last step was accepted, but rounding errors rule out another one. -/
  | roundingLimit
  /-- The objective is not finite. -/
  | undefinedValue (value : α)
  /-- A component of the gradient is not finite. -/
  | undefinedGradient (index : Nat) (value : α)
  /-- Not even steepest descent descends. -/
  | notDescent (slope : α)
  /-- The line search found no acceptable step. -/
  | searchFailed (step : α) (reason : StopReason)
  deriving DecidableEq, Repr

namespace Verdict

variable {α : Type}

/-- The task that a verdict leaves to the caller. -/
def task : Verdict α → Task
  | converged => .finalX
  | iterationsSpent | evaluationsSpent | roundingLimit => .warning
  | undefinedValue _ | undefinedGradient _ _ | notDescent _ | searchFailed _ _ => .error

/-- The status that goes with a verdict. -/
def status : Verdict α → Status
  | converged => .gradientConvergence
  | iterationsSpent => .tooManyIterations
  | evaluationsSpent => .tooManyEvaluations
  | roundingLimit => .roundingErrors
  | undefinedValue _ | undefinedGradient _ _ => .undefinedValue
  | notDescent _ => .notADescent
  | searchFailed _ .roundingErrors => .roundingErrors
  | searchFailed _ _ => .lineSearchFailure

/-- The verdict on a line search that is refused. -/
def ofRefusal : Refusal α → Verdict α
  | .notDescent slope => notDescent slope
  | .invalidRange step => searchFailed step .invalidRange

/-- Every verdict ends the run. -/
theorem isTerminal_task (v : Verdict α) : v.task.isTerminal = true := by
  cases v <;> rfl

variable [Scalar α]

/-- The failure that a verdict records, if any. -/
def failure? (c : Config α) : Verdict α → Option (Failure α)
  | converged | roundingLimit => none
  | iterationsSpent => some (.budgetExceeded "iterations" c.maxIterations)
  | evaluationsSpent => some (.budgetExceeded "evaluations" c.maxEvaluations)
  | undefinedValue value => some (.nonFiniteValue value)
  | undefinedGradient index value =>
    some (.invalidGradient index value "Gradient elements must be finite.")
  | notDescent slope => some (.notDescent slope)
  | searchFailed step reason => some (.searchFailed step reason.text)

/-- A refused line search is recorded as the refusal. -/
theorem failure?_ofRefusal (c : Config α) (r : Refusal α) :
    (ofRefusal r).failure? c = some r.toFailure := by
  cases r <;> rfl

end Verdict

/-! ## Answers -/

variable {α : Type} [Scalar α] {n : Nat}

/-- The verdict on an answer with a value or a gradient that is not finite. -/
def flaw? (value : α) (gradient : Vector α n) : Option (Verdict α) :=
  if !isFinite value then some (.undefinedValue value)
  else
    match firstFailing? isFinite gradient.toList with
    | some (index, component) => some (.undefinedGradient index component)
    | none => none

/-- A flaw is recorded as the first range that the answer violates. -/
theorem failure?_flaw? (c : Config α) (value : α) (gradient : Vector α n) :
    (flaw? value gradient).bind (·.failure? c) =
      (match checkValue value, checkFiniteGradient gradient.toArray with
        | .error e, _ => some e
        | .ok _, .error e => some e
        | .ok _, .ok _ => none) := by
  unfold flaw? checkValue checkFiniteGradient
  by_cases h : isFinite value = true
  · simp only [h, Bool.not_true, Bool.false_eq_true, if_false, if_true, Vector.toList]
    cases firstFailing? isFinite gradient.toArray.toList with
    | none => rfl
    | some found => rfl
  · simp [h, Verdict.failure?]

end Descent
