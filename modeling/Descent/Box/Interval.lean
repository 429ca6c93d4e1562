/-
# Intervals

The values that one variable may take: an interval with either end missing or
not.  A missing end is reached by no finite value, only by an infinite one.

* `Interval.clamp` : the nearest value of an interval;
* `Interval.blocks` : an end stands in the way of steepest descent;
* `Interval.reach` : the step at which a moving value meets an end.
-/
import Descent.Scalar

namespace Descent

open Scalar

/-- An interval with optional ends. -/
structure Interval (α : Type) where
  /-- The least value, unless there is none. -/
  lower : Option α := none
  /-- The greatest value, unless there is none. -/
  upper : Option α := none
  deriving DecidableEq, Repr

/-- How far a value can move before it meets an end of its interval. -/
inductive Reach (α : Type) where
  /-- The value does not move, or has no definite place to move from. -/
  | still
  /-- The value meets an end after this step. -/
  | within (step : α)
  /-- The value never meets an end. -/
  | unlimited
  deriving DecidableEq, Repr

namespace Interval

variable {α : Type} [Scalar α]

/-! ## Position -/

/-- The value is not above the lower end. -/
def atLower (I : Interval α) (x : α) : Bool :=
  match I.lower with
  | some lo => decide (x ≤ lo)
  | none => decide (x < 0) && !isFinite x

/-- The value is not below the upper end. -/
def atUpper (I : Interval α) (x : α) : Bool :=
  match I.upper with
  | some hi => decide (hi ≤ x)
  | none => decide (0 < x) && !isFinite x

/-- The value lies in the interval; what is not a number lies in none. -/
def contains (I : Interval α) (x : α) : Bool :=
  (match I.lower with
    | some lo => decide (lo ≤ x)
    | none => !isNaN x) &&
  (match I.upper with
    | some hi => decide (x ≤ hi)
    | none => !isNaN x)

/-- The lower end lies above the upper one. -/
def crossed (I : Interval α) : Bool :=
  match I.lower, I.upper with
  | some lo, some hi => decide (hi < lo)
  | _, _ => false

/-! ## Projection -/

/-- A value below the upper end is kept, any other one moved there. -/
def clampUpper (I : Interval α) (x : α) : α :=
  match I.upper with
  | some hi => if hi < x then hi else x
  | none => x

/-- The value of the interval nearest to the given one. -/
def clamp (I : Interval α) (x : α) : α :=
  match I.lower with
  | some lo => if x < lo then lo else I.clampUpper x
  | none => I.clampUpper x

/-- The value sits at an end and steepest descent for the derivative `g` points
out of the interval. -/
def blocks (I : Interval α) (x g : α) : Bool :=
  (I.atLower x && decide (0 < g)) || (I.atUpper x && decide (g < 0))

/-- The derivative, or zero where steepest descent points out of the interval. -/
def projectGradient (I : Interval α) (x g : α) : α :=
  if I.blocks x g then 0 else g

/-- The velocity, or zero where it points out of the interval at an end. -/
def projectVelocity (I : Interval α) (x d : α) : α :=
  if (I.atLower x && decide (d < 0)) || (I.atUpper x && decide (0 < d)) then 0 else d

/-! ## Reach -/

/-- The reach of the value `x` that moves with velocity `d`. -/
def reach (I : Interval α) (x d : α) : Reach α :=
  if d < 0 then
    match I.lower with
    | some lo => .within ((lo - x) / d)
    | none => if isFinite d && !isNaN x && !I.atLower x then .unlimited else .still
  else if 0 < d then
    match I.upper with
    | some hi => .within ((hi - x) / d)
    | none => if isFinite d && !isNaN x && !I.atUpper x then .unlimited else .still
  else .still

/-! ## Intervals without ends -/

/-- Without ends nothing is clamped. -/
theorem clamp_unbounded (x : α) : ({} : Interval α).clamp x = x := by
  rfl

/-- Without ends no finite value is blocked. -/
theorem blocks_unbounded {x : α} (hx : isFinite x = true) (g : α) :
    ({} : Interval α).blocks x g = false := by
  simp [blocks, atLower, atUpper, hx]

end Interval

end Descent
