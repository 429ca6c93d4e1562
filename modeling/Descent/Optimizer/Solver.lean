/-
# The state of a run

Everything that a run remembers between two calls, and the vocabulary of its
transitions.

* `Point` : an accepted point with its value and gradient;
* `Phase` : what the run is waiting for;
* `Solver` : the whole state;
* `Solver.task`, `Solver.accepted?`, … : what a caller sees of it.
-/
import Descent.Direction.ConjugateGradient
import Descent.Direction.StepLength
import Descent.Direction.VariableMetric
import Descent.LineSearch
import Descent.Optimizer.Verdict

namespace Descent

open Scalar

variable {α : Type} {n : Nat}

/-! ## Points and phases -/

/-- A point with the value and gradient reported there. -/
structure Point (α : Type) (n : Nat) where
  x : Vector α n
  f : α
  g : Vector α n

/-- A line search from an accepted point. -/
structure Trial (α : Type) (n : Nat) where
  /-- The accepted point. -/
  base : Point α n
  /-- The direction of the search. -/
  direction : Vector α n
  /-- The step at which the first component meets its bound, if any does. -/
  firstHit : Option α
  /-- The line search. -/
  run : Run α

/-- What a run is waiting for. -/
inductive Phase (α : Type) (n : Nat) where
  /-- The value and gradient at the first point. -/
  | opening
  /-- The value and gradient at a trial point. -/
  | searching (trial : Trial α n)
  /-- The permission to leave an accepted point. -/
  | accepted (point : Point α n)
  /-- Nothing any more; the last accepted point is kept. -/
  | stopped (last : Option (Point α n)) (verdict : Verdict α)

/-- The source of search directions, with what it has learned. -/
inductive Engine (α : Type) (n : Nat) where
  /-- Conjugate gradients. -/
  | conjugate (last : Option (Conjugate α n))
  /-- The variable metric, with its pairs from the newest to the oldest. -/
  | metric (pairs : List (CurvaturePair α n))

/-- The number of curvature pairs kept. -/
def Engine.memoryLength : Engine α n → Nat
  | conjugate _ => 0
  | metric pairs => pairs.length

/-- The state of a run. -/
structure Solver (α : Type) (n : Nat) where
  /-- The feasible set. -/
  box : Box α n
  /-- The source of search directions. -/
  engine : Engine α n
  /-- What the last accepted step left behind. -/
  last : Option (StepRecord α)
  /-- The accepted values that the nonmonotone search looks back on, newest first. -/
  recent : List α
  /-- The number of accepted steps. -/
  iterations : Nat
  /-- The number of answers at feasible points. -/
  evaluations : Nat
  /-- The number of times that steepest descent replaced another direction. -/
  restarts : Nat
  /-- The last accepted step. -/
  step : α
  /-- The gradient norm at the last accepted point. -/
  norm : α
  /-- The gradient norm at the first accepted point. -/
  openingNorm : α
  /-- What the run is waiting for. -/
  phase : Phase α n

namespace Phase

/-- The accepted point that a phase keeps. -/
def accepted? : Phase α n → Option (Point α n)
  | opening => none
  | searching trial => some trial.base
  | accepted point => some point
  | stopped last _ => last

/-- The verdict of a run that has stopped. -/
def verdict? : Phase α n → Option (Verdict α)
  | stopped _ verdict => some verdict
  | _ => none

variable [Scalar α]

/-- The task that a phase leaves to the caller. -/
def task : Phase α n → Task
  | opening | searching _ => .computeFG
  | accepted _ => .newX
  | stopped _ verdict => verdict.task

/-- The status that goes with a phase. -/
def status : Phase α n → Status
  | opening | searching _ | accepted _ => .success
  | stopped _ verdict => verdict.status

end Phase

namespace Solver

variable [Scalar α]

/-- The state of a run before its first answer. -/
def initial (c : Config α) (box : Box α n) : Solver α n :=
  { box
    engine :=
      match c.algorithm with
      | .conjugateGradient => .conjugate none
      | .variableMetric => .metric []
    last := none
    recent := []
    iterations := 0
    evaluations := 0
    restarts := 0
    step := 0
    norm := 0
    openingNorm := 0
    phase := .opening }

/-! ## Queries -/

/-- The task that is left to the caller. -/
def task (s : Solver α n) : Task := s.phase.task

/-- The reason for the task. -/
def status (s : Solver α n) : Status := s.phase.status

/-- The failure that the verdict records, if any. -/
def failure? (c : Config α) (s : Solver α n) : Option (Failure α) :=
  s.phase.verdict?.bind (·.failure? c)

/-- The last accepted point. -/
def accepted? (s : Solver α n) : Option (Point α n) := s.phase.accepted?

/-- The gradient norm that decides about stationarity at a point. -/
def gradientNormAt (s : Solver α n) (p : Point α n) : α :=
  s.box.effectiveNorm p.x p.g

/-- The gradient norm recorded with the last accepted point. -/
def gradientNorm? (s : Solver α n) : Option α :=
  s.accepted?.map fun _ => s.norm

/-- The number of curvature pairs kept. -/
def memoryLength (s : Solver α n) : Nat := s.engine.memoryLength

end Solver

end Descent
