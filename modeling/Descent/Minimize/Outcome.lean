/-
# Outcomes

The result of a complete run.

* `Calls` : how often a run evaluated its problem;
* `Outcome.ofRun` : the result, if its point and value are finite.
-/
import Descent.Optimizer

namespace Descent

open Scalar

/-- How often a problem was asked for its value and for its gradient. -/
structure Calls where
  cost : Nat := 0
  gradient : Nat := 0
  deriving DecidableEq, Repr

/-- The counters by name; one that was never raised is not listed. -/
def Calls.toList (calls : Calls) : List (String × Nat) :=
  [("cost_count", calls.cost), ("gradient_count", calls.gradient)].filter fun entry => 0 < entry.2

/-- The result of a run. -/
structure Outcome (α : Type) where
  /-- The final point. -/
  x : Array α
  /-- The objective there. -/
  value : α
  /-- The terminal task. -/
  task : Task
  /-- The reason for it. -/
  status : Status
  /-- The number of accepted steps. -/
  iterations : Nat
  /-- The number of answers at feasible points. -/
  evaluations : Nat
  /-- The number of times that steepest descent replaced another direction. -/
  restarts : Nat
  /-- The numbers of evaluations by name. -/
  evaluationCounts : List (String × Nat)
  /-- The Euclidean norm of the final gradient, where that is known. -/
  gradientNorm : Option α

/-- The run ended at a stationary point. -/
def Outcome.converged {α : Type} (o : Outcome α) : Bool :=
  o.task = .finalX

variable {α : Type} [Scalar α]

/-- The Euclidean norm of a gradient, its squares added from left to right and from
the neutral element of rounded addition, negative zero. -/
def gradientLength (g : Array α) : α :=
  sqrt ((g.toList.map fun gᵢ => gᵢ * gᵢ).foldl (· + ·) (-0))

/-- The result of a run that has left these values behind. -/
def Outcome.ofRun (x : Option (Array α)) (value : α) (task : Task) (status : Status)
    (iterations evaluations restarts : Nat) (evaluationCounts : List (String × Nat))
    (gradient : Option (Array α)) : Except (Failure α) (Outcome α) := do
  match x with
  | none => .error (.notInitialized "executor finished without a parameter vector")
  | some x =>
    checkStart x
    checkValue value
    .ok
      { x, value, task, status, iterations, evaluations, restarts, evaluationCounts,
        gradientNorm := gradient.map gradientLength }

end Descent
