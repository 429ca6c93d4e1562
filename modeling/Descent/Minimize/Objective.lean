/-
# Objectives

A function to minimize, with a gradient of its own or without one.  Where there is
none it is estimated by differences: central ones first, and forward ones if those
fail.

* `Objective` : the function;
* `Objective.toProblem` : its evaluation with every answer checked;
* `minimize` : a complete run.
-/
import Descent.Minimize.Stepper

namespace Descent

open Scalar

/-- A function to minimize.  The evaluations may depend on a state and change it. -/
structure Objective (σ α : Type) where
  /-- The function at a point. -/
  value : Array α → StateM σ (Except (Failure α) α)
  /-- Its gradient, or the failure that says that there is none. -/
  gradient : Array α → StateM σ (Except (Failure α) (Array α)) :=
    fun _ => pure (.error .gradientNotImplemented)
  /-- A test of the starting point. -/
  check : Array α → Except (Failure α) Unit := fun _ => .ok ()

variable {σ α : Type} [Scalar α]

/-! ## Difference quotients -/

/-- The distance between a point and its neighbours in a difference quotient, the
square root of the rounding unit. -/
def differenceStep : α := 1.490116119384765625e-8

/-- The point with one coordinate moved. -/
def shift (x : Array α) (i : Nat) (h : α) : Array α :=
  x.modify i (· + h)

/-- The points at which central differences are taken: for each coordinate the one
ahead, then the one behind. -/
def centralPoints (x : Array α) : List (Array α) :=
  (List.range x.size).flatMap fun i => [shift x i differenceStep, shift x i (-differenceStep)]

/-- The central difference quotients of values at those points. -/
def centralQuotients : List α → List α
  | ahead :: behind :: rest => (ahead - behind) / (2.0 * differenceStep) :: centralQuotients rest
  | _ => []

/-- The points at which forward differences are taken: the point itself, then for
each coordinate the one ahead. -/
def forwardPoints (x : Array α) : List (Array α) :=
  x :: (List.range x.size).map fun i => shift x i differenceStep

/-- The forward difference quotients of values at those points. -/
def forwardQuotients : List α → List α
  | [] => []
  | here :: ahead => ahead.map fun value => (value - here) / differenceStep

/-- All the values, or the first failure. -/
def allOrFirst {ε β : Type} : List (Except ε β) → Except ε (List β)
  | [] => .ok []
  | .error e :: _ => .error e
  | .ok value :: rest => (allOrFirst rest).map (value :: ·)

namespace Objective

/-! ## Checked evaluation -/

/-- The function at a point, if it is finite. -/
def cost (f : Objective σ α) (x : Array α) : StateM σ (Except (Failure α) α) := do
  let answer ← f.value x
  pure (answer.bind fun value => (checkValue value).map fun _ => value)

/-- The function at several points in turn; a failure does not keep the points
after it from being evaluated. -/
def costs (f : Objective σ α) : List (Array α) → StateM σ (List (Except (Failure α) α))
  | [] => pure []
  | x :: rest => do
    let here ← f.cost x
    let others ← f.costs rest
    pure (here :: others)

/-- A gradient that is what it should be. -/
def checked (dimension : Nat) (g : Array α) : Except (Failure α) (Array α) :=
  (checkGradient g dimension).map fun _ => g

/-- The estimate of the gradient by the quotients of values at given points. -/
def estimate (f : Objective σ α) (dimension : Nat) (points : List (Array α))
    (quotients : List α → List α) : StateM σ (Except (Failure α) (Array α)) := do
  let answers ← f.costs points
  pure ((allOrFirst answers).bind fun values => checked dimension (quotients values).toArray)

/-- The gradient at a point.  Without one of its own the central differences
decide, and if they fail in any way the forward ones. -/
def checkedGradient (f : Objective σ α) (x : Array α) :
    StateM σ (Except (Failure α) (Array α)) := do
  match ← f.gradient x with
  | .ok g => pure (checked x.size g)
  | .error .gradientNotImplemented =>
    match ← f.estimate x.size (centralPoints x) centralQuotients with
    | .ok g => pure (.ok g)
    | .error _ => f.estimate x.size (forwardPoints x) forwardQuotients
  | .error e => pure (.error e)

/-- The objective as a problem whose answers are checked. -/
def toProblem (f : Objective σ α) : Problem σ (Failure α) α :=
  { cost := f.cost, gradient := f.checkedGradient }

end Objective

/-! ## Minimization -/

/-- The failure that an interruption amounts to, where the problem fails in the
same way as the library. -/
def Interruption.toFailure : Interruption (Failure α) α → Failure α
  | .problem e => e
  | .optimizer e => e
  | .stalled => .unknown

/-- Minimizes a function from a starting point.  The function's own test of the
point comes first, then the settings. -/
def minimize (f : Objective σ α) (x : Array α) (c : Config α) (bounds : Bounds α) :
    StateM σ (Except (Failure α) (Outcome α)) :=
  match f.check x with
  | .error e => pure (.error e)
  | .ok () =>
    match Stepper.build c bounds with
    | .error e => pure (.error e)
    | .ok stepper => do
      let result ← stepper.run f.toProblem x
      pure (result.mapError Interruption.toFailure)

end Descent
