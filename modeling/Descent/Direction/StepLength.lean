/-
# First steps and descent

How long the first step along a direction should be, and whether the direction
descends enough to be followed at all.

* `firstStep` : the estimate from the last accepted step, or a small step;
* `descends` : the angle with steepest descent is far enough from a right one;
* `slope_neg_of_descends` : a direction that descends has a negative slope.
-/
import Descent.Config

namespace Descent

open Scalar

/-- What the last accepted step leaves behind. -/
structure StepRecord (α : Type) where
  /-- The accepted step. -/
  step : α
  /-- The slope along the direction at the start of that search. -/
  slope : α
  /-- The inner product of the displacement and the gradient change. -/
  sy : α
  /-- The squared length of the displacement. -/
  ss : α
  /-- The squared length of the gradient change. -/
  yy : α
  deriving DecidableEq, Repr

variable {α : Type} [Scalar α]

/-! ## First steps -/

/-- The minimizer along a direction of a quadratic function of the given
curvature. -/
def minimizerAt (curvature slope directionNorm : α) : α :=
  (-slope) / (curvature * directionNorm * directionNorm)

/-- The first step that a rule estimates from the last accepted step; the rules
that estimate a curvature need a positive one. -/
def StepRule.estimate? (rule : StepRule) (last : StepRecord α) (slope directionNorm : α) :
    Option α :=
  match rule with
  | .shannoPhua => some (last.step * last.slope / slope)
  | .orenSpedicato =>
    if 0 < last.sy then some (minimizerAt (last.yy / last.sy) slope directionNorm) else none
  | .barzilaiBorwein =>
    if 0 < last.sy then some (minimizerAt (last.sy / last.ss) slope directionNorm) else none

/-- The step that moves the point by a small part of its own length, or by a unit
length at the origin. -/
def smallStep (c : Config α) (directionNorm pointNorm : α) : α :=
  if 0 < pointNorm then c.delta * pointNorm / directionNorm else 1 / directionNorm

/-- The first step along a direction.  An estimate counts if it is finite and
positive; otherwise the step is a small one. -/
def firstStep (c : Config α) (last : Option (StepRecord α))
    (slope directionNorm pointNorm : α) : α :=
  match last.bind fun r => c.stepRule.estimate? r slope directionNorm with
  | some step =>
    if isFinite step ∧ 0 < step then step else smallStep c directionNorm pointNorm
  | none => smallStep c directionNorm pointNorm

/-- Before any step is accepted, the first step is a small one. -/
theorem firstStep_none (c : Config α) (slope directionNorm pointNorm : α) :
    firstStep c none slope directionNorm pointNorm = smallStep c directionNorm pointNorm := by
  rfl

/-! ## Descent -/

/-- The direction descends, and steeply enough for the descent threshold. -/
def descends (c : Config α) (slope gradientNorm directionNorm : α) : Bool :=
  decide (slope < 0) && decide (slope ≤ (-c.epsilon) * gradientNorm * directionNorm)

/-- A direction that descends has a negative slope. -/
theorem slope_neg_of_descends {c : Config α} {slope gradientNorm directionNorm : α}
    (h : descends c slope gradientNorm directionNorm = true) : slope < 0 := by
  simp [descends] at h
  exact h.1

end Descent
