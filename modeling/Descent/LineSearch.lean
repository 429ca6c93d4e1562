/-
# Line searches

A line search with a memory of accepted values, which serves one search after
another.

* `LineSearch.record` : takes up an accepted value;
* `LineSearch.start`, `LineSearch.iterate` : one search;
* `LineSearch.iterate_ended` : a search that has ended stays as it is.
-/
import Descent.LineSearch.Run

namespace Descent

/-- How a search has ended. -/
inductive Ending where
  /-- All conditions are met. -/
  | converged
  /-- The step is acceptable, but another condition could not be met. -/
  | warning (reason : StopReason)
  /-- No acceptable step was found. -/
  | failure (reason : StopReason)
  deriving DecidableEq, Repr

/-- The state of a line search. -/
inductive SearchState (α : Type) where
  /-- A step waits to be evaluated. -/
  | running (run : Run α)
  /-- The search has ended at a step. -/
  | ended (step : α) (ending : Ending)

/-- A line search for a series of directions. -/
structure LineSearch (α : Type) [Scalar α] where
  /-- The settings. -/
  config : Config α
  /-- The accepted values that the nonmonotone search looks back on, newest first. -/
  recent : List α := []
  /-- The state of the current search. -/
  state : SearchState α := .ended 0 .converged

/-- What a search asks of its caller. -/
inductive SearchStatus where
  | search
  | converged
  | warning
  | failure
  deriving DecidableEq, Repr

variable {α : Type} [Scalar α]

/-- The accepted values after another one; only the nonmonotone search keeps any. -/
def remember (c : Config α) (value : α) (recent : List α) : List α :=
  if c.lineSearch = .nonmonotone then pushRecent c.window value recent else recent

namespace LineSearch

/-! ## Queries -/

/-- The step to evaluate, or the one at which the search ended. -/
def step (s : LineSearch α) : α :=
  match s.state with
  | .running run => run.step
  | .ended step _ => step

/-- What the search asks of its caller. -/
def status (s : LineSearch α) : SearchStatus :=
  match s.state with
  | .running _ => .search
  | .ended _ .converged => .converged
  | .ended _ (.warning _) => .warning
  | .ended _ (.failure _) => .failure

/-- Why the search ended, where it could not meet all conditions. -/
def reason? (s : LineSearch α) : Option StopReason :=
  match s.state with
  | .ended _ (.warning reason) => some reason
  | .ended _ (.failure reason) => some reason
  | _ => none

/-- The reason in words, empty where there is none. -/
def reasonText (s : LineSearch α) : String :=
  s.reason?.elim "" StopReason.text

/-- Rounding errors ended the search. -/
def hitRoundingErrors (s : LineSearch α) : Bool :=
  s.reason? == some .roundingErrors

/-! ## Transitions -/

/-- Takes up the value at an accepted point. -/
def record (s : LineSearch α) (value : α) : LineSearch α :=
  { s with recent := remember s.config value s.recent }

/-- Starts a search, unless it is refused. -/
def start (s : LineSearch α) (value slope step minStep maxStep : α) :
    Except (Refusal α) (LineSearch α) := do
  let run ← Run.start s.config s.recent value slope step minStep maxStep
  .ok { s with state := .running run }

/-- Takes the value and slope at the current step. -/
def iterate (s : LineSearch α) (value slope : α) : LineSearch α :=
  match s.state with
  | .ended _ _ => s
  | .running run =>
    match run.answer s.config value slope with
    | .next run => { s with state := .running run }
    | .accepted none => { s with state := .ended run.step .converged }
    | .accepted (some reason) => { s with state := .ended run.step (.warning reason) }
    | .failed step reason => { s with state := .ended step (.failure reason) }

/-- A search that has ended takes no notice of further values. -/
theorem iterate_ended (s : LineSearch α) (h : s.status ≠ .search) (value slope : α) :
    s.iterate value slope = s := by
  unfold status at h
  unfold iterate
  split
  · rfl
  · next hrun => simp [hrun] at h

end LineSearch

end Descent
