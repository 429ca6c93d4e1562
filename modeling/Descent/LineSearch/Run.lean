/-
# Running a line search

A line search along a direction of descent never evaluates anything itself: it
names a step, is told the value and the slope there, and answers with another
step, with acceptance or with failure.

* `Run.start` : the first step, or why there is none;
* `Run.answer` : what follows from the value and slope at the current step;
* `Run.answer_congr_slope` : only the cubic search looks at slopes;
* `Run.backtrack_eq_accepted_iff` : the others accept by sufficient decrease alone.
-/
import Descent.LineSearch.Bracket
import Descent.Recent

namespace Descent

open Scalar

/-- A line search in progress. -/
structure Run (α : Type) where
  /-- What was known before the first trial. -/
  frame : Frame α
  /-- The value that sufficient decrease is measured from. -/
  reference : α
  /-- The step to evaluate. -/
  step : α
  /-- The number of steps evaluated so far. -/
  trials : Nat
  /-- What the cubic search has learned; the others do not use it. -/
  bracket : Bracket α
  deriving DecidableEq, Repr

/-- Why a line search cannot start. -/
inductive Refusal (α : Type) where
  /-- The function does not decrease at step zero. -/
  | notDescent (slope : α)
  /-- No positive step is admissible. -/
  | invalidRange (step : α)
  deriving DecidableEq, Repr

/-- The failure that a refusal amounts to. -/
def Refusal.toFailure {α : Type} : Refusal α → Failure α
  | .notDescent slope => .notDescent slope
  | .invalidRange step => .searchFailed step StopReason.invalidRange.text

/-- The answer of a line search to a value and a slope. -/
inductive Answer (α : Type) where
  /-- Evaluate the step of this run next. -/
  | next (run : Run α)
  /-- The current step is acceptable; the remark says what could not be met. -/
  | accepted (remark : Option StopReason)
  /-- No acceptable step is found; the step is the one last considered. -/
  | failed (step : α) (reason : StopReason)

variable {α : Type} [Scalar α]

/-! ## Starting -/

/-- The greatest of a value and the recent ones. -/
def greatestOf (value : α) (recent : List α) : α :=
  recent.foldr (fun v greatest => if greatest < v then v else greatest) value

namespace Run

/-- Starts a search from the value and the slope at step zero.  The first step is
moved into the range of admissible steps; the nonmonotone search measures decrease
from the greatest recent value. -/
def start (c : Config α) (recent : List α) (value slope step minStep maxStep : α) :
    Except (Refusal α) (Run α) :=
  if ¬ slope < 0 then .error (.notDescent slope)
  else if ¬ 0 ≤ minStep ∨ ¬ minStep ≤ maxStep ∨ ¬ 0 < step then .error (.invalidRange step)
  else
    let frame : Frame α := { value, slope, minStep, maxStep }
    let first := smaller (larger step minStep) maxStep
    let reference := if c.lineSearch = .nonmonotone then greatestOf value recent else value
    .ok { frame, reference, step := first, trials := 0, bracket := .start frame first }

/-! ## Backtracking -/

/-- The value at the current step is sufficiently far below the reference. -/
def hasDecreased (c : Config α) (run : Run α) (value : α) : Bool :=
  decide (value ≤ run.reference + c.sftol * run.step * run.frame.slope)

/-- The limit on trials is reached. -/
def isExhausted (c : Config α) (trials : Nat) : Bool :=
  c.maxTrials.any fun limit => decide (limit ≤ trials)

/-- The shorter step to try after an insufficient decrease: half the step, or the
minimizer of the parabola through what is known, kept between a tenth and a half. -/
def shorten (c : Config α) (run : Run α) (value : α) : α :=
  let half := 0.5 * run.step
  if c.lineSearch = .armijo then half
  else
    let tenth := 0.1 * run.step
    let curvature := value - run.frame.value - run.frame.slope * run.step
    let minimizer :=
      if 0 < curvature then (-run.frame.slope) * run.step * run.step / (2.0 * curvature) else half
    if isFinite minimizer then smaller (larger minimizer tenth) half else half

/-- The answer of the searches that backtrack. -/
def backtrack (c : Config α) (run : Run α) (value : α) : Answer α :=
  let trials := run.trials + 1
  if run.hasDecreased c value then .accepted none
  else if isExhausted c trials then .failed run.step .tooManyBacktracks
  else
    let shorter := run.shorten c value
    if shorter < run.frame.minStep then .failed run.step .belowMinimumStep
    else .next { run with step := shorter, trials }

/-! ## Bracketing -/

/-- The answer of the search that brackets.  A step at which it stops is still
acceptable if its value has decreased sufficiently. -/
def enclose (c : Config α) (run : Run α) (value slope : α) : Answer α :=
  let trials := run.trials + 1
  match run.bracket.advance c run.frame ⟨run.step, value, slope⟩ with
  | .converged => .accepted none
  | .stopped reason =>
    if value ≤ run.frame.value + run.step * c.sftol * run.frame.slope then .accepted (some reason)
    else .failed run.step reason
  | .next bracket step =>
    if isExhausted c trials then .failed step .tooManyTrials
    else .next { run with step, trials, bracket }

/-- The answer of a line search to the value and slope at its current step. -/
def answer (c : Config α) (run : Run α) (value slope : α) : Answer α :=
  if c.lineSearch = .cubic then run.enclose c value slope else run.backtrack c value

/-! ## What an answer depends on -/

/-- Only the cubic search looks at slopes. -/
theorem answer_congr_slope (c : Config α) (run : Run α) (value slope slope' : α)
    (h : c.lineSearch ≠ .cubic) :
    run.answer c value slope = run.answer c value slope' := by
  simp [answer, h]

/-- A search that backtracks accepts exactly the steps with sufficient decrease. -/
theorem backtrack_eq_accepted_iff (c : Config α) (run : Run α) (value : α)
    (remark : Option StopReason) :
    run.backtrack c value = .accepted remark ↔ remark = none ∧ run.hasDecreased c value = true := by
  unfold backtrack
  by_cases h : run.hasDecreased c value = true
  · simp [h, eq_comm]
  · simp only [h, Bool.false_eq_true, if_false, and_false, iff_false]
    split
    · simp
    · split <;> simp

end Run

end Descent
