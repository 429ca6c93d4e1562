/-
# Optimizers

The minimizer that a caller works with by reverse communication: it never
evaluates the objective but says at which point the caller should.

* `Optimizer.start` : an optimizer for a starting point, or one that says why
  there is none;
* `Optimizer.iterate` : one exchange with the caller;
* `Optimizer.close` : the end of all exchanges;
* `Optimizer.build` : the same start, failing where the input is invalid.
-/
import Descent.Optimizer.Advance

namespace Descent

open Scalar

/-- A minimization in `n` variables, as its caller sees it. -/
structure Optimizer (α : Type) [Scalar α] (n : Nat) where
  /-- The settings. -/
  config : Config α
  /-- The state of the run, or the reason why there is none. -/
  body : Except (Failure α) (Solver α n)
  /-- No more exchanges are possible. -/
  closed : Bool

variable {α : Type} [Scalar α] {n : Nat}

/-- Bounds go with a method that respects them. -/
def checkBoundsSupport (c : Config α) (box : Box α n) : Except (Failure α) Unit :=
  if box.bounded then
    match c.algorithm, c.metric with
    | .conjugateGradient, _ => .error (.boundsNotSupported "nlcg")
    | .variableMetric, .lbfgs => .error (.boundsNotSupported "lbfgs")
    | _, _ => .ok ()
  else .ok ()

namespace Optimizer

/-! ## Beginning -/

/-- The state of a run from a starting point: settings, starting point and bounds
are checked in this order. -/
def begin? (x : Vector α n) (c : Config α) (bounds : Bounds α) :
    Except (Failure α) (Solver α n) := do
  c.validate
  checkStart x.toArray
  let box ← Box.ofBounds bounds n
  checkBoundsSupport c box
  .ok (.initial c box)

/-- An optimizer for a starting point.  Invalid input is no failure here: it leaves
the optimizer with the task to report it. -/
def start (x : Vector α n) (c : Config α) (bounds : Bounds α) : Optimizer α n :=
  { config := c, body := begin? x c bounds, closed := false }

/-! ## Queries -/

/-- What the caller is asked to do next. -/
def task (o : Optimizer α n) : Task :=
  match o.body with
  | .ok s => s.task
  | .error _ => .inputError

/-- The reason for the task. -/
def status (o : Optimizer α n) : Status :=
  match o.body with
  | .ok s => s.status
  | .error (.infeasibleBounds ..) => .infeasibleBounds
  | .error _ => .invalidArgument

/-- The failure that ended the run, if any. -/
def failure? (o : Optimizer α n) : Option (Failure α) :=
  match o.body with
  | .ok s => s.failure? o.config
  | .error e => some e

/-- The state of the run, if there is one. -/
def solver? (o : Optimizer α n) : Option (Solver α n) :=
  match o.body with
  | .ok s => some s
  | .error _ => none

/-- The number of accepted steps. -/
def iterations (o : Optimizer α n) : Nat :=
  o.solver?.elim 0 (·.iterations)

/-- The number of answers at feasible points. -/
def evaluations (o : Optimizer α n) : Nat :=
  o.solver?.elim 0 (·.evaluations)

/-- The number of times that steepest descent replaced another direction. -/
def restarts (o : Optimizer α n) : Nat :=
  o.solver?.elim 0 (·.restarts)

/-- The last accepted step. -/
def step (o : Optimizer α n) : α :=
  o.solver?.elim 0 (·.step)

/-- The gradient norm at the last accepted point. -/
def gradientNorm? (o : Optimizer α n) : Option α :=
  o.solver?.bind (·.gradientNorm?)

/-- The number of curvature pairs kept; a closed optimizer keeps none. -/
def memoryLength (o : Optimizer α n) : Nat :=
  if o.closed then 0 else o.solver?.elim 0 (·.memoryLength)

/-- The last accepted point; a closed optimizer has none. -/
def accepted? (o : Optimizer α n) : Option (Point α n) :=
  if o.closed then none else o.solver?.bind (·.accepted?)

/-- The text of a query. -/
def info [PlainText α] (o : Optimizer α n) (key : String) : Except (Failure α) String :=
  if o.closed then .error .usedAfterClose
  else do
    match ← Query.parse key with
    | .task => .ok o.task.name
    | .status => .ok o.status.name
    | .iterations => .ok (toString o.iterations)
    | .evaluations => .ok (toString o.evaluations)
    | .restarts => .ok (toString o.restarts)
    | .step => .ok (text o.step)

/-! ## Exchanges -/

/-- One exchange: the caller passes a point with the value and gradient there and
gets back the optimizer and the point to go on with.  Closing counts before a
finished run, and a finished run before the dimensions. -/
def iterate (o : Optimizer α n) (x : Array α) (f : α) (g : Array α) :
    Except (Failure α) (Optimizer α n × Array α) :=
  if o.closed then .error .usedAfterClose
  else
    match o.body with
    | .error _ => .ok (o, x)
    | .ok s =>
      if s.task.isTerminal then .ok (o, x)
      else if hx : x.size = n then
        if hg : g.size = n then
          let (s, x) := s.advance o.config ⟨x, hx⟩ f ⟨g, hg⟩
          .ok ({ o with body := .ok s }, x.toArray)
        else .error (.dimensionMismatch "gradient" n g.size)
      else .error (.dimensionMismatch "x" n x.size)

/-- The optimizer after its last exchange. -/
def close (o : Optimizer α n) : Optimizer α n :=
  { o with closed := true }

/-- An optimizer for a starting point, where the input is valid. -/
def build (x : Vector α n) (c : Config α) (bounds : Bounds α) :
    Except (Failure α) (Optimizer α n) :=
  match (start x c bounds).body with
  | .ok _ => .ok (start x c bounds)
  | .error e => .error e

/-! ## First facts -/

/-- A closed optimizer exchanges nothing. -/
theorem iterate_of_closed (o : Optimizer α n) (h : o.closed = true) (x : Array α) (f : α)
    (g : Array α) : o.iterate x f g = .error .usedAfterClose := by
  simp [iterate, h]

/-- After the end of a run an exchange changes nothing. -/
theorem iterate_of_isTerminal (o : Optimizer α n) (hopen : o.closed = false)
    (h : o.task.isTerminal = true) (x : Array α) (f : α) (g : Array α) :
    o.iterate x f g = .ok (o, x) := by
  unfold iterate
  unfold task at h
  simp only [hopen, Bool.false_eq_true, if_false]
  split
  · rfl
  · next s hs =>
    simp only [hs] at h
    simp [h]

theorem close_close (o : Optimizer α n) : o.close.close = o.close := by
  rfl

end Optimizer

end Descent
