/-
# Bounds

The bounds that a caller asks for, before the dimension is known.  A side of the
box is absent, one value for all components, or one value for each of them.

* `Bounds.resolve` : the intervals of all components, or the first bound that
  cannot be met.
-/
import Descent.Box.Interval
import Descent.Config.Validity

namespace Descent

open Scalar

variable {α : Type}

/-- One side of the box. -/
inductive Side (α : Type) where
  /-- No component is bounded on this side. -/
  | unbounded
  /-- Every component has the same bound. -/
  | uniform (value : α)
  /-- Each component has its own bound, or none. -/
  | componentwise (values : Array (Option α))

/-- The side is absent. -/
def Side.isUnbounded : Side α → Bool
  | .unbounded => true
  | _ => false

/-- Lower and upper bounds of the variables. -/
structure Bounds (α : Type) where
  lower : Side α := .unbounded
  upper : Side α := .unbounded

/-- Neither side is given. -/
def Bounds.isEmpty (b : Bounds α) : Bool :=
  b.lower.isUnbounded && b.upper.isUnbounded

variable [Scalar α]

/-- Bounds that are all numbers. -/
def checkBounds {n : Nat} (values : Vector (Option α) n) :
    Except (Failure α) (Vector (Option α) n) :=
  match firstFailing? (fun bound => !bound.any isNaN) values.toList with
  | some (index, some value) => .error (.undefinedBound index value)
  | _ => .ok values

/-- The bound of each of `n` components on one side. -/
def Side.resolve (what : String) (n : Nat) : Side α → Except (Failure α) (Vector (Option α) n)
  | .unbounded => .ok (Vector.replicate n none)
  | .uniform value => checkBounds (Vector.replicate n (some value))
  | .componentwise values =>
    if h : values.size = n then checkBounds ⟨values, h⟩
    else .error (.dimensionMismatch what n values.size)

/-- Intervals that all contain a value. -/
def checkCrossing {n : Nat} (sides : Vector (Interval α) n) :
    Except (Failure α) (Vector (Interval α) n) :=
  match firstFailing? (fun I => !Interval.crossed I) sides.toList with
  | some (index, ⟨some lower, some upper⟩) => .error (.infeasibleBounds index lower upper)
  | _ => .ok sides

/-- The intervals of `n` components.  The lower side is resolved before the upper
one, and only then are the two compared. -/
def Bounds.resolve (b : Bounds α) (n : Nat) : Except (Failure α) (Vector (Interval α) n) := do
  let lower ← b.lower.resolve "lower bound" n
  let upper ← b.upper.resolve "upper bound" n
  checkCrossing (Vector.zipWith Interval.mk lower upper)

/-- Without bounds every component is free. -/
theorem Bounds.resolve_empty (n : Nat) :
    ({} : Bounds α).resolve n = .ok (Vector.replicate n {}) := by
  have hnone : firstFailing? (fun I => !Interval.crossed I)
      (List.replicate n ({} : Interval α)) = none := by
    refine firstFailing?_of_forall ?_
    intro I hI
    rw [List.eq_of_mem_replicate hI]
    rfl
  simp [Bounds.resolve, Side.resolve, bind, Except.bind, checkCrossing, hnone]

end Descent
