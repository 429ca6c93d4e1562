/-
# Configuration

Everything about a minimization that is fixed before it starts.

* `Config` : the settings and their defaults;
* `Config.curvatureTolerance` : the curvature tolerance in effect.
-/
import Descent.Scalar
import Descent.Config.Choice

namespace Descent

/-- The settings of a minimization. -/
structure Config (α : Type) [Scalar α] where
  /-- The family of search directions. -/
  algorithm : Algorithm := .conjugateGradient
  /-- The line search. -/
  lineSearch : SearchKind := .quadratic
  /-- The rule for the first step of a line search. -/
  stepRule : StepRule := .shannoPhua
  /-- The conjugacy rule of the conjugate gradients. -/
  conjugacy : ConjugacyRule := .fletcherReeves
  /-- The variant of the variable metric. -/
  metric : MetricVariant := .lbfgs
  /-- The size of a first step relative to the current point. -/
  delta : α := 0.05
  /-- The least cosine between a direction and steepest descent. -/
  epsilon : α := 0.01
  /-- The gradient norm below which a point counts as stationary. -/
  gatol : α := 1e-6
  /-- The same, relative to the gradient norm at the first point. -/
  grtol : α := 0
  /-- The greatest number of accepted steps. -/
  maxIterations : Nat := 500
  /-- The greatest number of evaluations. -/
  maxEvaluations : Nat := 500
  /-- The number of curvature pairs that the variable metric keeps. -/
  memory : Nat := 5
  /-- Restart conjugate gradients that lose orthogonality, and damp curvature
  pairs that are not positive. -/
  powell : Bool := false
  /-- The fraction of the predicted decrease that suffices. -/
  sftol : α := 1e-4
  /-- The fraction of the initial slope that is small, where one is given. -/
  sgtol : Option α := none
  /-- The relative width below which a bracket is too narrow. -/
  sxtol : α := 1e-17
  /-- The number of recent values that the nonmonotone search looks back on. -/
  window : Nat := 10
  /-- The greatest number of trials in one line search, where one is given. -/
  maxTrials : Option Nat := none

/-- The curvature tolerance that the line search uses.  Conjugate gradients with
the cubic search need a tighter one than all others unless one is given. -/
def Config.curvatureTolerance {α : Type} [Scalar α] (c : Config α) : α :=
  match c.sgtol with
  | some tolerance => tolerance
  | none =>
    if c.algorithm = .conjugateGradient ∧ c.lineSearch = .cubic then 0.1 else 0.9

end Descent
