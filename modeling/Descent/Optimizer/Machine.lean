/-
# The task machine

The minimizer as a record of separate fields: the task and its status, the failure on
record, the counters, and a workspace with a stage of its own.  Nothing in the types
keeps these from contradicting one another, so every call looks at what it finds and
refuses what should not be there.

* `Workspace` : what a run works with, present until the machine is closed;
* `Machine.start`, `Machine.close` : the beginning and the end of all calls;
* `Machine.advance` : a call in a run that goes on;
* `Machine.iterate` : one exchange with the caller.
-/
import Descent.Optimizer

namespace Descent

open Scalar

/-! ## Workspaces -/

/-- What the workspace of a machine was last used for. -/
inductive Stage where
  /-- Nothing has been accepted yet. -/
  | initial
  /-- A line search is in progress. -/
  | search
  /-- A point has been accepted. -/
  | accepted
  deriving DecidableEq, Repr

/-- What a run works with.  A field holds what was stored there last, whether or not it
still matters. -/
structure Workspace (α : Type) [Scalar α] (n : Nat) where
  stage : Stage
  /-- The feasible set. -/
  box : Box α n
  /-- The line search, with the accepted values that it looks back on. -/
  search : LineSearch α
  /-- What the last accepted step left behind. -/
  last : Option (StepRecord α)
  /-- The source of search directions. -/
  engine : Engine α n
  /-- The accepted point. -/
  base : Point α n
  /-- The gradient there that decides about stationarity. -/
  effective : Vector α n
  /-- The direction of the line search. -/
  direction : Vector α n
  /-- The slope along the direction where the search began. -/
  slope : α
  /-- The gradient norm at the first accepted point. -/
  openingNorm : α
  /-- The step at which the first component meets its bound, if any does. -/
  firstHit : Option α

variable {α : Type} [Scalar α] {n : Nat}

namespace Workspace

/-- The workspace of a run before its first answer. -/
def initial (c : Config α) (box : Box α n) : Workspace α n :=
  { stage := .initial
    box
    search := { config := c }
    last := none
    engine :=
      match c.algorithm with
      | .conjugateGradient => .conjugate none
      | .variableMetric => .metric []
    base := { x := zeros n, f := 0, g := zeros n }
    effective := zeros n
    direction := zeros n
    slope := 0
    openingNorm := 0
    firstHit := none }

/-- The workspace with another accepted point. -/
def recordPoint (w : Workspace α n) (p : Point α n) : Workspace α n :=
  { w with
    stage := .accepted
    base := p
    search := w.search.record p.f
    effective := w.box.effectiveGradient p.x p.g }

/-- The workspace after an accepted step to a point. -/
def recordStep (c : Config α) (w : Workspace α n) (p : Point α n) : Workspace α n :=
  let step := w.search.step
  let displacement := difference p.x w.base.x
  let change := difference p.g w.base.g
  let clipped := w.firstHit.any fun hit => decide (hit < step)
  ({ w with
    last := some
      { step
        slope := w.slope
        sy := dot displacement change
        ss := dot displacement displacement
        yy := dot change change }
    engine :=
      match w.engine with
      | .conjugate last => .conjugate last
      | .metric pairs =>
        .metric (if clipped then pairs else learn c pairs displacement change) }).recordPoint p

/-- The workspace with the direction that its engine proposes, and whether the engine
fell back on steepest descent. -/
def propose (c : Config α) (w : Workspace α n) (step : α) : Workspace α n × Bool :=
  match w.engine with
  | .conjugate last =>
    let (next, restarted) := Conjugate.next c last w.base.g step
    ({ w with engine := .conjugate (some next), direction := next.direction }, restarted)
  | .metric pairs =>
    ({ w with direction := metricDirection c w.box pairs w.base.x w.base.g w.effective }, false)

/-- The workspace with steepest descent for its direction and everything forgotten. -/
def steepest (w : Workspace α n) : Workspace α n :=
  match w.engine with
  | .conjugate _ =>
    let start := Conjugate.steepest w.base.g
    { w with engine := .conjugate (some start), direction := start.direction }
  | .metric _ => { w with engine := .metric [], direction := negate w.effective }

/-- The steps to consider along the direction. -/
def stepRange (c : Config α) (w : Workspace α n) (slope : α) :
    Solver.StepRange α :=
  let first :=
    if 0 < w.engine.memoryLength then 1
    else firstStep c w.last slope (norm2 w.direction) (norm2 w.base.x)
  let least := first * 1e-20
  let greatest := first * 1e20
  if w.box.bounded then
    let limits := w.box.stepLimits w.base.x w.direction
    { first, least, firstHit := limits.first
      greatest :=
        match limits.last with
        | some last => if last < greatest then larger last least else greatest
        | none => greatest }
  else { first, least, greatest, firstHit := none }

end Workspace

/-! ## The machine -/

/-- A minimization in `n` variables, field by field. -/
structure Machine (α : Type) [Scalar α] (n : Nat) where
  /-- The settings. -/
  config : Config α
  /-- What the caller is asked to do next. -/
  task : Task
  /-- The reason for the task. -/
  status : Status
  /-- The failure on record. -/
  failure? : Option (Failure α)
  /-- The number of accepted steps. -/
  iterations : Nat
  /-- The number of answers at feasible points. -/
  evaluations : Nat
  /-- The number of times that steepest descent replaced another direction. -/
  restarts : Nat
  /-- The last accepted step. -/
  step : α
  /-- The gradient norm at the last accepted point. -/
  norm? : Option α
  /-- No more exchanges are possible. -/
  closed : Bool
  /-- What the run works with. -/
  workspace? : Option (Workspace α n)

namespace Machine

/-- Asks the caller for something. -/
def set (m : Machine α n) (task : Task) (status : Status) : Machine α n :=
  { m with task, status }

/-- Ends the run with an error. -/
def fail (m : Machine α n) (status : Status) (e : Failure α) : Machine α n :=
  ({ m with failure? := some e }).set .error status

/-- Ends the run because a budget is spent. -/
def exhaust (m : Machine α n) (status : Status) : Machine α n :=
  let e :=
    match status with
    | .tooManyIterations => .budgetExceeded "iterations" m.config.maxIterations
    | _ => .budgetExceeded "evaluations" m.config.maxEvaluations
  ({ m with failure? := some e }).set .warning status

/-! ## Beginning and end -/

/-- The workspace of a run from a starting point, where the input is valid. -/
def prepare (x : Vector α n) (c : Config α) (bounds : Bounds α) :
    Except (Failure α) (Workspace α n) := do
  c.validate
  checkStart x.toArray
  let box ← Box.ofBounds bounds n
  checkBoundsSupport c box
  .ok (.initial c box)

/-- A machine for a starting point; the task says whether the input is valid. -/
def start (x : Vector α n) (c : Config α) (bounds : Bounds α) : Machine α n :=
  let m : Machine α n :=
    { config := c, task := .start, status := .success, failure? := none, iterations := 0
      evaluations := 0, restarts := 0, step := 0, norm? := none, closed := false
      workspace? := none }
  match prepare x c bounds with
  | .ok w => { m with workspace? := some w, task := .computeFG }
  | .error e =>
    { m with
      status :=
        match e with
        | .infeasibleBounds .. => .infeasibleBounds
        | _ => .invalidArgument
      task := .inputError
      failure? := some e }

/-- Gives the workspace up. -/
def close (m : Machine α n) : Machine α n :=
  { m with workspace? := none, closed := true }

/-- The last accepted point. -/
def accepted? (m : Machine α n) : Option (Point α n) :=
  m.workspace?.bind fun w => if w.stage = .initial then none else some w.base

/-- The number of curvature pairs kept. -/
def memoryLength (m : Machine α n) : Nat :=
  m.workspace?.elim 0 (·.engine.memoryLength)

/-! ## Answers -/

/-- The tests at an accepted point.  A norm that is missing counts as infinite. -/
def settle (m : Machine α n) (w : Workspace α n) : Machine α n :=
  let norm := m.norm?.getD (1 / 0)
  if norm ≤ larger m.config.gatol (m.config.grtol * w.openingNorm) then
    m.set .finalX .gradientConvergence
  else if m.config.maxIterations ≤ m.iterations then m.exhaust .tooManyIterations
  else m.set .newX .success

/-- An answer with a finite value and gradient. -/
def checkAnswer (f : α) (g : Vector α n) : Except (Failure α) Unit := do
  checkValue f
  checkGradient g.toArray n

/-- A value and a gradient at the first point. -/
def answerInitial (m : Machine α n) (w : Workspace α n) (x : Vector α n) (f : α)
    (g : Vector α n) : Machine α n × Workspace α n × Vector α n :=
  if !w.box.contains x then (m.set .computeFG .success, w, w.box.project x)
  else
    let m := { m with evaluations := m.evaluations + 1 }
    match checkAnswer f g with
    | .error e => (m.fail .undefinedValue e, w, x)
    | .ok _ =>
      let norm := w.box.effectiveNorm x g
      let w := { w.recordPoint ⟨x, f, g⟩ with openingNorm := norm }
      let m := { m with norm? := some norm }
      (m.settle w, w, x)

/-- Takes up the point to which a step was accepted. -/
def accept (m : Machine α n) (w : Workspace α n) (p : Point α n) : Machine α n × Workspace α n :=
  ({ m with
      iterations := m.iterations + 1
      step := w.search.step
      norm? := some (w.box.effectiveNorm p.x p.g) },
    w.recordStep m.config p)

/-- A value and a gradient at a trial point. -/
def answerSearch (m : Machine α n) (w : Workspace α n) (x : Vector α n) (f : α)
    (g : Vector α n) : Machine α n × Workspace α n × Vector α n :=
  let m := { m with evaluations := m.evaluations + 1 }
  match checkAnswer f g with
  | .error e => (m.fail .undefinedValue e, w, w.base.x)
  | .ok _ =>
    let slope := Solver.trialSlope w.base x g w.search.step
    let w := { w with search := w.search.iterate f slope }
    match w.search.status with
    | .search =>
      if m.config.maxEvaluations ≤ m.evaluations then
        (m.exhaust .tooManyEvaluations, w, w.base.x)
      else
        (m.set .computeFG .success, w, Solver.trialPoint w.box w.base w.direction w.search.step)
    | .converged =>
      let (m, w) := m.accept w ⟨x, f, g⟩
      (m.settle w, w, x)
    | .warning =>
      let (m, w) := m.accept w ⟨x, f, g⟩
      let m := m.settle w
      let m :=
        if m.task = .newX ∧ w.search.hitRoundingErrors then m.set .warning .roundingErrors else m
      (m, w, x)
    | .failure =>
      let status := if w.search.hitRoundingErrors then .roundingErrors else .lineSearchFailure
      (m.fail status (.searchFailed w.search.step w.search.reasonText), w, w.base.x)

/-- A value and a gradient arrive.  At an accepted point none were asked for. -/
def onEvaluation (m : Machine α n) (w : Workspace α n) (x : Vector α n) (f : α)
    (g : Vector α n) : Machine α n × Workspace α n × Vector α n :=
  match w.stage with
  | .initial => m.answerInitial w x f g
  | .search => m.answerSearch w x f g
  | .accepted => (m.fail .invalidArgument (.cannotIterate Task.computeFG.name), w, x)

/-! ## Leaving an accepted point -/

/-- The status that goes with a refused line search. -/
def refusalStatus : Refusal α → Status
  | .notDescent _ => .notADescent
  | .invalidRange _ => .lineSearchFailure

/-- Begins a line search along the direction of the workspace. -/
def beginSearch (m : Machine α n) (w : Workspace α n) (slope : α) :
    Machine α n × Workspace α n × Vector α n :=
  let range := w.stepRange m.config slope
  let w := { w with firstHit := range.firstHit }
  if m.config.maxEvaluations ≤ m.evaluations then
    (m.exhaust .tooManyEvaluations, w, w.base.x)
  else
    match w.search.start w.base.f slope range.first range.least range.greatest with
    | .error refusal => (m.fail (refusalStatus refusal) refusal.toFailure, w, w.base.x)
    | .ok search =>
      let w := { w with search, slope, stage := .search }
      (m.set .computeFG .success, w, Solver.trialPoint w.box w.base w.direction search.step)

/-- The run leaves its accepted point.  A norm that is missing counts as zero. -/
def onNewX (m : Machine α n) (w : Workspace α n) : Machine α n × Workspace α n × Vector α n :=
  let norm := m.norm?.getD 0
  let (w, restarted) := w.propose m.config m.step
  let m := { m with restarts := if restarted then m.restarts + 1 else m.restarts }
  let slope := dot w.base.g w.direction
  if descends m.config slope norm (norm2 w.direction) then m.beginSearch w slope
  else
    let m := { m with restarts := m.restarts + 1 }
    let w := w.steepest
    let slope := dot w.base.g w.direction
    if slope < 0 then m.beginSearch w slope
    else (m.fail .notADescent (.notDescent slope), w, w.base.x)

/-! ## Exchanges -/

/-- A call in a run that goes on: the task afterwards, or why the call is refused. -/
def advance (m : Machine α n) (w : Workspace α n) (x : Vector α n) (f : α) (g : Vector α n) :
    Except (Failure α) Task × Machine α n × Workspace α n × Vector α n :=
  match m.task with
  | .computeFG =>
    let (m, w, x) := m.onEvaluation w x f g
    (.ok m.task, m, w, x)
  | .newX =>
    let (m, w, x) := m.onNewX w
    (.ok m.task, m, w, x)
  | other => (.error (.cannotIterate other.name), m, w, x)

/-- One exchange: the caller passes a point with the value and gradient there and gets
back the task and the point to go on with, or a failure.  The workspace is taken out for
the call and put back behind it. -/
def iterate (m : Machine α n) (x : Array α) (f : α) (g : Array α) :
    Except (Failure α) Task × Machine α n × Array α :=
  if m.closed then (.error .usedAfterClose, m, x)
  else if m.task.isTerminal then (.ok m.task, m, x)
  else if hx : x.size = n then
    if hg : g.size = n then
      match m.workspace? with
      | none => (.error (.notInitialized "optimizer has no solver state"), m, x)
      | some w =>
        let (result, m, w, x) := ({ m with workspace? := none }).advance w ⟨x, hx⟩ f ⟨g, hg⟩
        (result, { m with workspace? := some w }, x.toArray)
    else (.error (.dimensionMismatch "gradient" n g.size), m, x)
  else (.error (.dimensionMismatch "x" n x.size), m, x)

end Machine

end Descent
