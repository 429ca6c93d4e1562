/-
# Driving an optimizer

The loop that answers an optimizer with a callback until the run has ended.

* `Callback` : a function that evaluates objective and gradient;
* `Optimizer.drive` : the loop;
* `Optimizer.driveAndClose` : the loop, with the optimizer closed behind it.
-/
import Descent.Optimizer

namespace Descent

/-- What can end a run before its task is terminal. -/
inductive Interruption (ε α : Type) where
  /-- The problem could not be evaluated. -/
  | problem (e : ε)
  /-- The optimizer refused the exchange or gave up. -/
  | optimizer (e : Failure α)
  /-- The exchanges did not come to an end. -/
  | stalled
  deriving Repr

/-- Evaluates the objective at the first vector; the second one holds the last
gradient and is handed back holding the new one.  The evaluation may depend on a
state and change it. -/
abbrev Callback (σ ε α : Type) :=
  Array α → Array α → StateM σ (Except ε α × Array α)

/-- What is left after a run has been driven. -/
structure Driven (ε α : Type) [Scalar α] (n : Nat) where
  /-- The optimizer. -/
  optimizer : Optimizer α n
  /-- The caller's point. -/
  x : Array α
  /-- The caller's gradient. -/
  g : Array α
  /-- The terminal task, or what interrupted the run. -/
  result : Except (Interruption ε α) Task

/-- A number of exchanges that no run exceeds once its point is in the box: every
evaluation is answered in one exchange and followed by at most one other. -/
def Config.exchanges {α : Type} [Scalar α] (c : Config α) : Nat :=
  2 * max 1 c.maxEvaluations + 2

namespace Optimizer

variable {σ ε α : Type} [Scalar α] {n : Nat}

/-- Drives a run for a limited number of exchanges. -/
def driveFor (callback : Callback σ ε α) :
    Nat → Optimizer α n → Array α → α → Array α → StateM σ (Driven ε α n)
  | 0, o, x, _, g =>
    pure ⟨o, x, g, if o.task.isTerminal then .ok o.task else .error .stalled⟩
  | fuel + 1, o, x, f, g =>
    match o.task with
    | .computeFG => do
      let (answer, g) ← callback x g
      match answer with
      | .error e => pure ⟨o, x, g, .error (.problem e)⟩
      | .ok f =>
        match o.iterate x f g with
        | .error e => pure ⟨o, x, g, .error (.optimizer e)⟩
        | .ok (o, x) => driveFor callback fuel o x f g
    | .newX =>
      match o.iterate x f g with
      | .error e => pure ⟨o, x, g, .error (.optimizer e)⟩
      | .ok (o, x) => driveFor callback fuel o x f g
    | task => pure ⟨o, x, g, .ok task⟩

/-- Drives a run until its task is terminal or an evaluation fails. -/
def drive (o : Optimizer α n) (x g : Array α) (callback : Callback σ ε α) :
    StateM σ (Driven ε α n) :=
  driveFor callback o.config.exchanges o x 0 g

/-- Drives a run and closes the optimizer, whatever came of it. -/
def driveAndClose (o : Optimizer α n) (x g : Array α) (callback : Callback σ ε α) :
    StateM σ (Driven ε α n) := do
  let driven ← o.drive x g callback
  pure { driven with optimizer := driven.optimizer.close }

/-- A run that has ended is left as it is and nothing is evaluated. -/
theorem drive_of_isTerminal (o : Optimizer α n) (h : o.task.isTerminal = true) (x g : Array α)
    (callback : Callback σ ε α) :
    o.drive x g callback = pure ⟨o, x, g, .ok o.task⟩ := by
  unfold drive Config.exchanges
  simp only [driveFor]
  split <;> simp_all [Task.isTerminal]

end Optimizer

end Descent
