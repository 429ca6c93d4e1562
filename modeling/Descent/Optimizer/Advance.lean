/-
# Transitions of a run

How a run moves on when its caller reports a value and a gradient, or lets it
leave an accepted point.  Whatever ends the run leaves the caller's vector at the
last accepted point.

* `Solver.settle` : the tests at an accepted point;
* `Solver.answerOpening`, `Solver.answerTrial` : a value and a gradient arrive;
* `Solver.depart` : the next line search begins;
* `Solver.advance` : the three together.
-/
import Descent.Optimizer.Solver

namespace Descent

open Scalar

variable {α : Type} [Scalar α] {n : Nat}

namespace Solver

/-! ## Accepted points -/

/-- The gradient norm up to which a point counts as stationary. -/
def threshold (c : Config α) (s : Solver α n) : α :=
  larger c.gatol (c.grtol * s.openingNorm)

/-- The phase at a newly accepted point, whose gradient norm has been recorded:
convergence is looked for before the budget of iterations. -/
def settle (c : Config α) (s : Solver α n) (p : Point α n) : Phase α n :=
  if s.norm ≤ s.threshold c then .stopped (some p) .converged
  else if c.maxIterations ≤ s.iterations then .stopped (some p) .iterationsSpent
  else .accepted p

/-! ## The first point -/

/-- A value and a gradient at the first point.  A point outside the box is moved
into it and has to be evaluated again. -/
def answerOpening (c : Config α) (s : Solver α n) (x : Vector α n) (f : α) (g : Vector α n) :
    Solver α n × Vector α n :=
  if !s.box.contains x then (s, s.box.project x)
  else
    let s := { s with evaluations := s.evaluations + 1 }
    match flaw? f g with
    | some flaw => ({ s with phase := .stopped none flaw }, x)
    | none =>
      let p : Point α n := { x, f, g }
      let s :=
        { s with
          recent := remember c f s.recent
          norm := s.gradientNormAt p
          openingNorm := s.gradientNormAt p }
      ({ s with phase := s.settle c p }, x)

/-! ## Trial points -/

/-- The point of the box nearest to the one reached from the accepted point by a
step along the direction. -/
def trialPoint (box : Box α n) (base : Point α n) (direction : Vector α n) (step : α) :
    Vector α n :=
  box.project (axpy step direction base.x)

/-- The slope along the displacement from the accepted point, per unit of step. -/
def trialSlope (base : Point α n) (x g : Vector α n) (step : α) : α :=
  sumLeft (Vector.zipWith (· * ·) g (difference x base.x)).toList / step

/-- A step that goes beyond the first bound met says nothing about the curvature
along the direction. -/
def isClipped (trial : Trial α n) : Bool :=
  trial.firstHit.any fun hit => decide (hit < trial.run.step)

/-- What an accepted step teaches the engine. -/
def learnFrom (c : Config α) (engine : Engine α n) (trial : Trial α n) (s y : Vector α n) :
    Engine α n :=
  match engine with
  | .conjugate last => .conjugate last
  | .metric pairs => .metric (if isClipped trial then pairs else learn c pairs s y)

/-- The state after a step has been accepted, except for its phase. -/
def accept (c : Config α) (s : Solver α n) (trial : Trial α n) (p : Point α n) : Solver α n :=
  let step := trial.run.step
  let displacement := difference p.x trial.base.x
  let change := difference p.g trial.base.g
  { s with
    iterations := s.iterations + 1
    step
    last := some
      { step
        slope := trial.run.frame.slope
        sy := dot displacement change
        ss := dot displacement displacement
        yy := dot change change }
    engine := learnFrom c s.engine trial displacement change
    recent := remember c p.f s.recent
    norm := s.gradientNormAt p }

/-- A point accepted with the remark that rounding errors stopped the search ends
the run, unless it ends already. -/
def heed (remark : Option StopReason) (phase : Phase α n) : Phase α n :=
  match remark, phase with
  | some .roundingErrors, .accepted p => .stopped (some p) .roundingLimit
  | _, phase => phase

/-- A value and a gradient at a trial point. -/
def answerTrial (c : Config α) (s : Solver α n) (trial : Trial α n)
    (x : Vector α n) (f : α) (g : Vector α n) : Solver α n × Vector α n :=
  let s := { s with evaluations := s.evaluations + 1 }
  let base := trial.base
  let stop (verdict : Verdict α) : Solver α n × Vector α n :=
    ({ s with phase := .stopped (some base) verdict }, base.x)
  match flaw? f g with
  | some flaw => stop flaw
  | none =>
    match trial.run.answer c f (trialSlope base x g trial.run.step) with
    | .next run =>
      if c.maxEvaluations ≤ s.evaluations then stop .evaluationsSpent
      else
        ({ s with phase := .searching { trial with run } },
          trialPoint s.box base trial.direction run.step)
    | .accepted remark =>
      let p : Point α n := { x, f, g }
      let s := s.accept c trial p
      ({ s with phase := heed remark (s.settle c p) }, x)
    | .failed step reason => stop (.searchFailed step reason)

/-! ## Leaving an accepted point -/

/-- A direction to search along, and the engine that proposed it. -/
structure Heading (α : Type) (n : Nat) where
  engine : Engine α n
  direction : Vector α n
  /-- The slope of the objective along the direction. -/
  slope : α
  /-- The length of the direction. -/
  length : α
  /-- How often steepest descent replaced another direction. -/
  restarts : Nat

/-- The direction that an engine proposes at a point, the engine afterwards, and
whether it fell back on steepest descent. -/
def propose (c : Config α) (s : Solver α n) (p : Point α n) : Engine α n × Vector α n × Bool :=
  match s.engine with
  | .conjugate last =>
    let (next, restarted) := Conjugate.next c last p.g s.step
    (.conjugate (some next), next.direction, restarted)
  | .metric pairs =>
    let pg := s.box.effectiveGradient p.x p.g
    (.metric pairs, metricDirection c s.box pairs p.x p.g pg, false)

/-- Steepest descent at a point, and the engine with everything forgotten. -/
def steepest (s : Solver α n) (p : Point α n) : Engine α n × Vector α n :=
  match s.engine with
  | .conjugate _ =>
    let start := Conjugate.steepest p.g
    (.conjugate (some start), start.direction)
  | .metric _ => (.metric [], negate (s.box.effectiveGradient p.x p.g))

/-- The direction to search along: the one proposed if it descends, and steepest
descent otherwise. -/
def heading (c : Config α) (s : Solver α n) (p : Point α n) : Heading α n :=
  let (engine, direction, restarted) := s.propose c p
  let slope := dot p.g direction
  let length := norm2 direction
  let restarts := if restarted then 1 else 0
  if descends c slope s.norm length then
    { engine, direction, slope, length, restarts }
  else
    let (engine, direction) := s.steepest p
    { engine, direction, slope := dot p.g direction, length := norm2 direction,
      restarts := restarts + 1 }

/-- The first step along a direction and the range of steps around it. -/
structure StepRange (α : Type) where
  first : α
  least : α
  greatest : α
  /-- The step at which the first component meets its bound, if any does. -/
  firstHit : Option α

/-- The steps to consider along a direction.  With curvature pairs the first step
is one; bounds cut the range off where no component moves any more. -/
def stepRange (c : Config α) (s : Solver α n) (p : Point α n) (h : Heading α n) : StepRange α :=
  let first :=
    if 0 < h.engine.memoryLength then 1 else firstStep c s.last h.slope h.length (norm2 p.x)
  let least := first * 1e-20
  let greatest := first * 1e20
  if s.box.bounded then
    let limits := s.box.stepLimits p.x h.direction
    { first, least, firstHit := limits.first
      greatest :=
        match limits.last with
        | some last => if last < greatest then larger last least else greatest
        | none => greatest }
  else { first, least, greatest, firstHit := none }

/-- The run leaves an accepted point and begins a line search. -/
def depart (c : Config α) (s : Solver α n) (p : Point α n) : Solver α n × Vector α n :=
  let h := s.heading c p
  let s := { s with engine := h.engine, restarts := s.restarts + h.restarts }
  let stop (verdict : Verdict α) : Solver α n × Vector α n :=
    ({ s with phase := .stopped (some p) verdict }, p.x)
  if ¬ h.slope < 0 then stop (.notDescent h.slope)
  else
    let range := s.stepRange c p h
    if c.maxEvaluations ≤ s.evaluations then stop .evaluationsSpent
    else
      match Run.start c s.recent p.f h.slope range.first range.least range.greatest with
      | .error refusal => stop (.ofRefusal refusal)
      | .ok run =>
        let trial : Trial α n :=
          { base := p, direction := h.direction, firstHit := range.firstHit, run }
        ({ s with phase := .searching trial }, trialPoint s.box p h.direction run.step)

/-! ## One call -/

/-- The state and the caller's vector after a call with a point, a value and a
gradient.  On leaving an accepted point the value and gradient are not looked at,
and a run that has stopped takes no notice of the call. -/
def advance (c : Config α) (s : Solver α n) (x : Vector α n) (f : α) (g : Vector α n) :
    Solver α n × Vector α n :=
  match s.phase with
  | .opening => s.answerOpening c x f g
  | .searching trial => s.answerTrial c trial x f g
  | .accepted p => s.depart c p
  | .stopped _ _ => (s, x)

/-- A run that has stopped stays as it is. -/
theorem advance_of_isTerminal (c : Config α) (s : Solver α n) (x : Vector α n) (f : α)
    (g : Vector α n) (h : s.task.isTerminal = true) : s.advance c x f g = (s, x) := by
  unfold advance
  unfold task Phase.task at h
  split <;> simp_all [Task.isTerminal]

/-- Only the accepted point matters for leaving it. -/
theorem advance_accepted (c : Config α) (s : Solver α n) (p : Point α n)
    (h : s.phase = .accepted p) (x : Vector α n) (f : α) (g : Vector α n) :
    s.advance c x f g = s.depart c p := by
  simp [advance, h]

end Solver

end Descent
