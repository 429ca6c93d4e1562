/-
# Difference quotients with failures

A routine that takes difference quotients is given a function that returns a number in any case.
An objective that can fail is shielded from it: a failure is put into a cell that the routine does
not see, unless there is one already, and the routine goes on with what is not a number.  Whoever
called it looks into the cell afterwards, and clears it before another pass.

Of the routines no more is used than where they ask for values, and how many quotients they make.

* `Differences` : a routine, with `centralDifferences` and `forwardDifferences` as the usual ones;
* `Objective.shielded` : the function that it is given;
* `Objective.forwardPass` : a pass by itself, with its failure;
* `Objective.shieldedGradient` : the gradient, estimated in one pass or in two.
-/
import Descent.Minimize.Objective

namespace Descent

open Scalar

variable {σ τ α : Type} {count : Nat → Nat}

/-! ## Routines -/

/-- A routine for difference quotients.  It asks for the values of a function at points that do
not depend on these values. -/
structure Differences (α : Type) (count : Nat → Nat) where
  /-- The points, in the order in which it asks for the values there. -/
  points : Array α → List (Array α)
  /-- What it makes of the values. -/
  quotients : Array α → List α → List α
  /-- The dimension decides how many points there are. -/
  length_points (x : Array α) : (points x).length = count x.size
  /-- There is one quotient for each coordinate. -/
  length_quotients (x : Array α) {values : List α} :
    values.length = count x.size → (quotients x values).length = x.size

/-- The values of a function at several points in turn. -/
def evaluate (value : Array α → StateM τ α) : List (Array α) → StateM τ (List α)
  | [] => pure []
  | x :: rest => do
    let here ← value x
    let others ← evaluate value rest
    pure (here :: others)

/-- A routine at work. -/
def Differences.run (routine : Differences α count) (value : Array α → StateM τ α) (x : Array α) :
    StateM τ (Array α) := do
  let values ← evaluate value (routine.points x)
  pure (routine.quotients x values).toArray

variable [Scalar α]

/-- Central differences take two points for each coordinate. -/
theorem length_centralPoints (x : Array α) : (centralPoints x).length = 2 * x.size := by
  rw [centralPoints, List.length_flatMap]
  show ((List.range x.size).map fun _ => 2).sum = 2 * x.size
  rw [List.map_const', List.sum_replicate_nat, List.length_range, Nat.mul_comm]

/-- Forward differences take the point itself and one for each coordinate. -/
theorem length_forwardPoints (x : Array α) : (forwardPoints x).length = x.size + 1 := by
  simp [forwardPoints]

/-- Two values make one central difference quotient. -/
theorem length_centralQuotients {values : List α} {k : Nat} (h : values.length = 2 * k) :
    (centralQuotients values).length = k := by
  induction k generalizing values with
  | zero =>
    rw [List.length_eq_zero_iff.mp h]
    rfl
  | succ k ih =>
    match values, h with
    | ahead :: behind :: rest, h =>
      rw [centralQuotients, List.length_cons, ih (by simpa [Nat.mul_add] using h)]

/-- All values but the first make a forward difference quotient. -/
theorem length_forwardQuotients {values : List α} {k : Nat} (h : values.length = k + 1) :
    (forwardQuotients values).length = k := by
  match values, h with
  | here :: ahead, h =>
    rw [forwardQuotients, List.length_map]
    simpa using h

/-- Central differences. -/
def centralDifferences : Differences α (2 * ·) where
  points := centralPoints
  quotients _ := centralQuotients
  length_points := length_centralPoints
  length_quotients _ _ := length_centralQuotients

/-- Forward differences. -/
def forwardDifferences : Differences α (· + 1) where
  points := forwardPoints
  quotients _ := forwardQuotients
  length_points := length_forwardPoints
  length_quotients _ _ := length_forwardQuotients

/-! ## The shield -/

/-- The state of an objective together with the cell for failures. -/
structure Shield (σ α : Type) where
  /-- The state of the objective. -/
  state : σ
  /-- The first failure since the cell was cleared, if any. -/
  cell : Option (Failure α)

namespace Objective

/-- The function with its failures kept from whoever asks for its value. -/
def shielded (f : Objective σ α) (x : Array α) : StateM (Shield σ α) α := do
  let shield : Shield σ α ← get
  match f.cost x shield.state with
  | (.ok value, state) =>
    set { shield with state }
    pure value
  | (.error e, state) =>
    set ({ state, cell := shield.cell.or (some e) } : Shield σ α)
    pure (0 / 0)

/-- The gradient by forward differences, or the first failure on the way.  The cell is empty
afterwards. -/
def forwardPass (f : Objective σ α) (forward : Differences α (· + 1)) (x : Array α) :
    StateM (Shield σ α) (Except (Failure α) (Array α)) := do
  modify fun shield : Shield σ α => { shield with cell := none }
  let g ← forward.run f.shielded x
  let shield : Shield σ α ← get
  set ({ shield with cell := none } : Shield σ α)
  match shield.cell with
  | some e => pure (.error e)
  | none => pure (checked x.size g)

/-- The gradient by central differences, unless something failed on the way or they are not what
they should be; then by forward differences. -/
def differencePasses (f : Objective σ α) (central : Differences α (2 * ·))
    (forward : Differences α (· + 1)) (x : Array α) :
    StateM (Shield σ α) (Except (Failure α) (Array α)) := do
  let g ← central.run f.shielded x
  let shield : Shield σ α ← get
  match shield.cell with
  | some _ => f.forwardPass forward x
  | none =>
    match checked x.size g with
    | .ok g => pure (.ok g)
    | .error _ => f.forwardPass forward x

/-- The gradient at a point, its own or by differences. -/
def shieldedGradient (f : Objective σ α) (central : Differences α (2 * ·))
    (forward : Differences α (· + 1)) (x : Array α) :
    StateM σ (Except (Failure α) (Array α)) := do
  match ← f.gradient x with
  | .ok g => pure (checked x.size g)
  | .error .gradientNotImplemented =>
    let state ← get
    let (result, shield) := f.differencePasses central forward x { state, cell := none }
    set shield.state
    pure result
  | .error e => pure (.error e)

end Objective

end Descent
