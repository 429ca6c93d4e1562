/-
# Running step by step

A run that an outer loop advances from one accepted point to the next.

* `Problem` : an objective with a gradient, evaluated one at a time;
* `Stepper.init`, `Stepper.next` : the first accepted point, and the next one;
* `Stepper.run` : the outer loop, from a starting point to the outcome.
-/
import Descent.Minimize.Drive
import Descent.Minimize.Outcome

namespace Descent

/-- An objective and its gradient.  The evaluations may depend on a state and
change it. -/
structure Problem (σ ε α : Type) where
  /-- The objective at a point. -/
  cost : Array α → StateM σ (Except ε α)
  /-- The gradient at a point. -/
  gradient : Array α → StateM σ (Except ε (Array α))

/-- A run in progress with the caller's side of it. -/
structure Session (α : Type) [Scalar α] where
  {dimension : Nat}
  /-- The optimizer. -/
  optimizer : Optimizer α dimension
  /-- The current point. -/
  x : Array α
  /-- The last value. -/
  f : α
  /-- The last gradient. -/
  g : Array α

/-- A run that is advanced from one accepted point to the next. -/
structure Stepper (α : Type) [Scalar α] where
  /-- The settings. -/
  config : Config α
  /-- The bounds of the variables. -/
  bounds : Bounds α := {}
  /-- The run, once it has begun. -/
  session : Option (Session α) := none
  /-- The evaluations made so far. -/
  calls : Calls := {}

/-- How a run has ended, as the outer loop sees it. -/
inductive Halt where
  /-- At a stationary point. -/
  | converged
  /-- Otherwise, with a status that says why. -/
  | exit (status : Status)
  deriving DecidableEq, Repr

/-- The end of a run in words. -/
def Halt.text : Halt → String
  | converged => "Solver converged"
  | exit status => status.name

/-- What the outer loop learns after each step. -/
structure Report (α : Type) where
  /-- The accepted point. -/
  x : Array α
  /-- The value there. -/
  f : α
  /-- The gradient there. -/
  g : Array α
  /-- How the run has ended, if it has. -/
  halt : Option Halt

variable {σ ε α : Type} [Scalar α]

/-- The failure to advance a run that has not begun. -/
def notBegun : Interruption ε α :=
  .optimizer (.notInitialized "solver has not been initialized")

/-! ## Answering requests -/

namespace Session

/-- Evaluates the problem for as long as the optimizer asks for it, for a limited
number of exchanges.  The calls are counted before they are made. -/
def answerRequests (p : Problem σ ε α) :
    Nat → Session α → Calls → StateM σ (Session α × Calls × Except (Interruption ε α) Task)
  | 0, s, calls =>
    pure (s, calls, if s.optimizer.task = .computeFG then .error .stalled else .ok s.optimizer.task)
  | fuel + 1, s, calls =>
    match s.optimizer.task with
    | .computeFG => do
      let calls := { calls with cost := calls.cost + 1 }
      match ← p.cost s.x with
      | .error e => pure (s, calls, .error (.problem e))
      | .ok f =>
        let s := { s with f }
        let calls := { calls with gradient := calls.gradient + 1 }
        match ← p.gradient s.x with
        | .error e => pure (s, calls, .error (.problem e))
        | .ok g =>
          let s := { s with g }
          match s.optimizer.iterate s.x f g with
          | .error e => pure (s, calls, .error (.optimizer e))
          | .ok (optimizer, x) => answerRequests p fuel { s with optimizer, x } calls
    | task => pure (s, calls, .ok task)

/-- Leaves an accepted point, if the run is at one. -/
def depart (s : Session α) : Except (Interruption ε α) (Session α) :=
  if s.optimizer.task = .newX then
    match s.optimizer.iterate s.x s.f s.g with
    | .error e => .error (.optimizer e)
    | .ok (optimizer, x) => .ok { s with optimizer, x }
  else .ok s

/-- The last accepted point, or the failure that ended the run. -/
def report (s : Session α) (task : Task) : Except (Interruption ε α) (Report α) :=
  if task = .error ∨ task = .inputError then
    .error (.optimizer (s.optimizer.failure?.getD .unknown))
  else
    match s.optimizer.accepted? with
    | none => .error notBegun
    | some p =>
      let halt :=
        match task with
        | .finalX => some .converged
        | .warning => some (.exit s.optimizer.status)
        | _ => none
      .ok { x := p.x.toArray, f := p.f, g := p.g.toArray, halt }

end Session

/-! ## Steps -/

namespace Stepper

/-- Evaluates the problem for as long as the optimizer of a session asks for it and
reports the accepted point reached. -/
def pursue (p : Problem σ ε α) (st : Stepper α) (s : Session α) :
    StateM σ (Stepper α × Except (Interruption ε α) (Report α)) := do
  let (s, calls, result) ← s.answerRequests p st.config.exchanges st.calls
  pure ({ st with session := some s, calls }, result.bind s.report)

/-- Begins a run at a point and reports the first accepted point.  Where the run
cannot begin, an earlier one is kept. -/
def init (p : Problem σ ε α) (st : Stepper α) (x : Option (Array α)) :
    StateM σ (Stepper α × Except (Interruption ε α) (Report α)) :=
  match x with
  | none =>
    pure (st, .error (.optimizer (.notInitialized "initial parameter vector is required")))
  | some x =>
    match Optimizer.build ⟨x, rfl⟩ st.config st.bounds with
    | .error e => pure (st, .error (.optimizer e))
    | .ok optimizer =>
      st.pursue p { optimizer, x, f := 0, g := Array.replicate x.size 0 }

/-- Leaves the accepted point and reports the next one. -/
def next (p : Problem σ ε α) (st : Stepper α) :
    StateM σ (Stepper α × Except (Interruption ε α) (Report α)) :=
  match st.session with
  | none => pure (st, .error notBegun)
  | some s =>
    match s.depart with
    | .error e => pure (st, .error e)
    | .ok s => st.pursue p s

/-! ## Complete runs -/

/-- The steps from a report up to the end of the run, limited in number. -/
def finish (p : Problem σ ε α) :
    Nat → Stepper α → Report α → StateM σ (Stepper α × Except (Interruption ε α) (Report α))
  | 0, st, report => pure (st, if report.halt.isSome then .ok report else .error .stalled)
  | fuel + 1, st, report =>
    if report.halt.isSome then pure (st, .ok report)
    else do
      let (st, result) ← st.next p
      match result with
      | .error e => pure (st, .error e)
      | .ok report => finish p fuel st report

/-- The outcome of a run that has ended with a report. -/
def outcome (st : Stepper α) (report : Report α) : Except (Interruption ε α) (Outcome α) :=
  match st.session with
  | none => .error notBegun
  | some s =>
    let o := s.optimizer
    match Outcome.ofRun (some report.x) report.f o.task o.status o.iterations o.evaluations
      o.restarts st.calls.toList (some report.g) with
    | .error e => .error (.optimizer e)
    | .ok outcome => .ok outcome

/-- The outcome of the run from a starting point. -/
def run (p : Problem σ ε α) (st : Stepper α) (x : Array α) :
    StateM σ (Except (Interruption ε α) (Outcome α)) := do
  let (st, first) ← st.init p (some x)
  match first with
  | .error e => pure (.error e)
  | .ok report =>
    let (st, last) ← st.finish p st.config.exchanges report
    pure (last.bind st.outcome)

/-- A stepper for settings that are in range. -/
def build (c : Config α) (bounds : Bounds α) : Except (Failure α) (Stepper α) := do
  c.validate
  .ok { config := c, bounds }

end Stepper

end Descent
