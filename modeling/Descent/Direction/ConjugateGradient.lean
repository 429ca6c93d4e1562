/-
# Conjugate gradients

Each direction is steepest descent plus a multiple of the direction before it.

* `Conjugate.weight` : the multiple, by one of the classical formulas;
* `Conjugate.next` : the next direction, or a restart from steepest descent;
* `Conjugate.next_none` : the first direction is steepest descent.
-/
import Descent.Config
import Descent.Dense

namespace Descent

open Scalar

/-- What the next direction depends on. -/
structure Conjugate (α : Type) (n : Nat) where
  /-- The gradient at the last point. -/
  gradient : Vector α n
  /-- The direction taken from there. -/
  direction : Vector α n
  /-- The number of directions since steepest descent was last taken. -/
  updates : Nat

namespace Conjugate

variable {α : Type} [Scalar α] {n : Nat}

/-- Steepest descent, with nothing remembered of earlier directions. -/
def steepest (g : Vector α n) : Conjugate α n :=
  { gradient := g, direction := negate g, updates := 0 }

/-! ## The weight of the last direction -/

/-- The least weight that the formula of Hager and Zhang admits. -/
def leastWeight (last : Conjugate α n) : α :=
  (-1) / (sqrt (dot last.direction last.direction) *
    smaller (sqrt (dot last.gradient last.gradient)) 0.01)

/-- The weight of the last direction in the next one; `y` is the gradient change
and `step` the step that was accepted along the last direction. -/
def weight (rule : ConjugacyRule) (last : Conjugate α n) (g : Vector α n) (step : α) : α :=
  let d := last.direction
  let y := difference g last.gradient
  match rule with
  | .fletcherReeves => dot g g / dot last.gradient last.gradient
  | .hestenesStiefel => dot g y / dot d y
  | .polakRibierePolyak =>
    let β := dot g y / dot last.gradient last.gradient
    if 0 < β then β else 0
  | .fletcher => dot g g / -dot d last.gradient
  | .liuStorey => dot g y / -dot d last.gradient
  | .daiYuan => dot g g / dot d y
  | .perryShanno => (dot g y - step * dot g d) / dot d y
  | .hagerZhang =>
    let β := (dot g y - 2.0 * dot y y * dot g d / dot d y) / dot d y
    larger β last.leastWeight

/-! ## Directions -/

/-- Consecutive gradients are far from orthogonal, or as many directions as there
are variables have been taken since steepest descent. -/
def isStale (last : Conjugate α n) (g : Vector α n) : Bool :=
  decide (n ≤ last.updates) || decide (0.2 * dot g g ≤ abs (dot g last.gradient))

/-- The direction that gives the last one a weight. -/
def extend (last : Conjugate α n) (g : Vector α n) (β : α) : Conjugate α n :=
  { gradient := g
    direction := combine (-1) g β last.direction
    updates := last.updates + 1 }

/-- The next direction at a point with gradient `g`, reached by the given step,
and whether steepest descent had to be taken instead of an update. -/
def next (c : Config α) (last : Option (Conjugate α n)) (g : Vector α n) (step : α) :
    Conjugate α n × Bool :=
  match last with
  | none => (steepest g, false)
  | some last =>
    if c.powell && last.isStale g then (steepest g, true)
    else
      let β := weight c.conjugacy last g step
      if isFinite β then (last.extend g β, false) else (steepest g, true)

/-- The first direction is steepest descent, which is no restart. -/
theorem next_none (c : Config α) (g : Vector α n) (step : α) :
    next c none g step = (steepest g, false) := by
  rfl

/-- A restart leaves nothing behind of what came before. -/
theorem next_eq_steepest_of_restart {c : Config α} {last : Option (Conjugate α n)}
    {g : Vector α n} {step : α} (h : (next c last g step).2 = true) :
    (next c last g step).1 = steepest g := by
  unfold next at h ⊢
  split
  · rfl
  · split
    · rfl
    · simp only
      split
      · simp_all
      · rfl

end Conjugate

end Descent
