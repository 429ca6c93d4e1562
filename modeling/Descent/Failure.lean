/-
# Failures

Everything that can go wrong in setting up or running a minimization.  A failure
carries the offending values in the precision of the run; `Failure.map` carries
them over to another precision and `Failure.message` puts a failure into words.

* `Failure` : the causes;
* `Failure.message` : the text of a cause;
* `ForeignError` : an error raised outside the library, and the failure it
  amounts to.
-/
import Descent.Decimal.Plain

namespace Descent

/-! ## Causes -/

/-- A reason why a minimization cannot be set up or cannot go on. -/
inductive Failure (α : Type) where
  /-- There are no variables. -/
  | emptyVariables
  /-- A vector does not have the dimension of the problem. -/
  | dimensionMismatch (what : String) (expected found : Nat)
  /-- A component of the starting point is not finite. -/
  | invalidStart (index : Nat) (value : α)
  /-- A gradient tolerance is out of range. -/
  | invalidTolerance (name : String) (value : α) (reason : String)
  /-- The relative size of a first step is out of range. -/
  | invalidDelta (value : α) (reason : String)
  /-- The descent threshold is out of range. -/
  | invalidEpsilon (value : α) (reason : String)
  /-- A constant of the line search is out of range. -/
  | invalidSearchConstant (name : String) (value : α) (reason : String)
  /-- The number of curvature pairs to keep is out of range. -/
  | invalidMemory (size : Nat) (reason : String)
  /-- The length of the nonmonotone window is out of range. -/
  | invalidWindow (length : Nat) (reason : String)
  /-- No algorithm has this name. -/
  | unknownAlgorithm (name : String) (reason : String)
  /-- No line search has this name. -/
  | unknownLineSearch (name : String) (reason : String)
  /-- No rule for first steps has this name. -/
  | unknownStepRule (name : String) (reason : String)
  /-- No conjugacy rule has this name. -/
  | unknownConjugacyRule (name : String) (reason : String)
  /-- No variant of the variable metric has this name. -/
  | unknownMetricVariant (name : String) (reason : String)
  /-- A lower bound lies above the upper bound of the same component. -/
  | infeasibleBounds (index : Nat) (lower upper : α)
  /-- A bound is not a number. -/
  | undefinedBound (index : Nat) (value : α)
  /-- The chosen method cannot respect bounds. -/
  | boundsNotSupported (method : String)
  /-- The objective is not finite. -/
  | nonFiniteValue (value : α)
  /-- A component of the gradient is not finite. -/
  | invalidGradient (index : Nat) (value : α) (reason : String)
  /-- The objective offers no gradient of its own. -/
  | gradientNotImplemented
  /-- The objective does not decrease along the search direction. -/
  | notDescent (slope : α)
  /-- The line search ended without an acceptable step. -/
  | searchFailed (step : α) (reason : String)
  /-- A budget was spent before convergence. -/
  | budgetExceeded (what : String) (limit : Nat)
  /-- The optimizer was closed before. -/
  | usedAfterClose
  /-- No query has this name. -/
  | unknownQuery (key : String)
  /-- The optimizer cannot go on from this task. -/
  | cannotIterate (task : String)
  /-- A parameter was rejected outside the library. -/
  | invalidParameter (text : String)
  /-- A part of the problem is missing. -/
  | notImplemented (text : String)
  /-- A run was continued before it was begun. -/
  | notInitialized (text : String)
  /-- A condition was violated outside the library. -/
  | conditionViolated (text : String)
  /-- An inconsistency was found outside the library. -/
  | potentialBug (text : String)
  /-- Any other error from outside the library. -/
  | backend (text : String)
  /-- An error that says nothing about itself. -/
  | unknown
  deriving DecidableEq, Repr

namespace Failure

variable {α β : Type}

/-- The same failure with its values carried over to another type. -/
def map (convert : α → β) : Failure α → Failure β
  | emptyVariables => .emptyVariables
  | dimensionMismatch what expected found => .dimensionMismatch what expected found
  | invalidStart index value => .invalidStart index (convert value)
  | invalidTolerance name value reason => .invalidTolerance name (convert value) reason
  | invalidDelta value reason => .invalidDelta (convert value) reason
  | invalidEpsilon value reason => .invalidEpsilon (convert value) reason
  | invalidSearchConstant name value reason => .invalidSearchConstant name (convert value) reason
  | invalidMemory size reason => .invalidMemory size reason
  | invalidWindow length reason => .invalidWindow length reason
  | unknownAlgorithm name reason => .unknownAlgorithm name reason
  | unknownLineSearch name reason => .unknownLineSearch name reason
  | unknownStepRule name reason => .unknownStepRule name reason
  | unknownConjugacyRule name reason => .unknownConjugacyRule name reason
  | unknownMetricVariant name reason => .unknownMetricVariant name reason
  | infeasibleBounds index lower upper => .infeasibleBounds index (convert lower) (convert upper)
  | undefinedBound index value => .undefinedBound index (convert value)
  | boundsNotSupported method => .boundsNotSupported method
  | nonFiniteValue value => .nonFiniteValue (convert value)
  | invalidGradient index value reason => .invalidGradient index (convert value) reason
  | gradientNotImplemented => .gradientNotImplemented
  | notDescent slope => .notDescent (convert slope)
  | searchFailed step reason => .searchFailed (convert step) reason
  | budgetExceeded what limit => .budgetExceeded what limit
  | usedAfterClose => .usedAfterClose
  | unknownQuery key => .unknownQuery key
  | cannotIterate task => .cannotIterate task
  | invalidParameter text => .invalidParameter text
  | notImplemented text => .notImplemented text
  | notInitialized text => .notInitialized text
  | conditionViolated text => .conditionViolated text
  | potentialBug text => .potentialBug text
  | backend text => .backend text
  | unknown => .unknown

theorem map_id (e : Failure α) : e.map id = e := by
  cases e <;> rfl

theorem map_map {γ : Type} (g : β → γ) (f : α → β) (e : Failure α) :
    (e.map f).map g = e.map (g ∘ f) := by
  cases e <;> rfl

/-! ## Words -/

/-- A failure in words. -/
def message [PlainText α] : Failure α → String
  | emptyVariables => "Variable vector must have at least one component"
  | dimensionMismatch what expected found =>
    s!"Dimension mismatch for {what}: expected {expected}, found {found}"
  | invalidStart index value =>
    s!"Invalid starting point at index {index}: " ++ text value ++ ", must be finite"
  | invalidTolerance name value reason =>
    s!"Invalid tolerance {name} = " ++ text value ++ s!": {reason}"
  | invalidDelta value reason => "Invalid delta " ++ text value ++ s!": {reason}"
  | invalidEpsilon value reason => "Invalid epsilon " ++ text value ++ s!": {reason}"
  | invalidSearchConstant name value reason =>
    s!"Invalid line-search parameter {name} = " ++ text value ++ s!": {reason}"
  | invalidMemory size reason => s!"Invalid variable-metric memory {size}: {reason}"
  | invalidWindow length reason => s!"Invalid nonmonotone window {length}: {reason}"
  | unknownAlgorithm name reason => s!"Invalid algorithm '{name}': {reason}"
  | unknownLineSearch name reason => s!"Invalid line searcher '{name}': {reason}"
  | unknownStepRule name reason => s!"Invalid autostep '{name}': {reason}"
  | unknownConjugacyRule name reason => s!"Invalid nlcg method '{name}': {reason}"
  | unknownMetricVariant name reason => s!"Invalid vmlmb method '{name}': {reason}"
  | infeasibleBounds index lower upper =>
    s!"Infeasible bounds at index {index}: lower " ++ text lower ++ " > upper " ++ text upper
  | undefinedBound index value => s!"Invalid bound at index {index}: " ++ text value
  | boundsNotSupported method =>
    s!"Bounds are not supported by {method}; use algorithm 'vmlmb'"
  | nonFiniteValue value => "Non-finite objective value: " ++ text value
  | invalidGradient index value reason =>
    s!"Invalid gradient at index {index}: " ++ text value ++ s!": {reason}"
  | gradientNotImplemented => "Analytic gradient not implemented"
  | notDescent slope =>
    "Search direction is not a descent direction (slope " ++ text slope ++ ")"
  | searchFailed step reason => "Line search failed at step " ++ text step ++ s!": {reason}"
  | budgetExceeded what limit => s!"Too many {what} (limit {limit})"
  | usedAfterClose => "Optimizer used after close"
  | unknownQuery key =>
    s!"Unknown task_info key '{key}'; valid keys are Get_task, Get_status, " ++
      "Get_iterations, Get_evaluations, Get_restarts, Get_step"
  | cannotIterate task => s!"Cannot iterate from task {task}"
  | invalidParameter text => s!"Invalid parameter: {text}"
  | notImplemented text => s!"Not implemented: {text}"
  | notInitialized text => s!"Not initialized: {text}"
  | conditionViolated text => s!"Condition violated: {text}"
  | potentialBug text => s!"Potential bug: {text}"
  | backend text => s!"Backend error: {text}"
  | unknown => "Unknown error"

end Failure

/-! ## Errors from outside -/

/-- The kinds of errors that a program around the library raises. -/
inductive ForeignKind where
  | invalidParameter
  | notImplemented
  | notInitialized
  | conditionViolated
  | potentialBug
  /-- A kind that has no counterpart among the failures. -/
  | unlisted
  /-- An error of another program, known by its text alone. -/
  | other
  deriving DecidableEq, Repr

/-- An error raised outside the library. -/
structure ForeignError where
  kind : ForeignKind
  text : String
  deriving DecidableEq, Repr

/-- The failure that an error from outside amounts to. -/
def Failure.ofForeign {α : Type} (e : ForeignError) : Failure α :=
  match e.kind with
  | .invalidParameter => .invalidParameter e.text
  | .notImplemented => .notImplemented e.text
  | .notInitialized => .notInitialized e.text
  | .conditionViolated => .conditionViolated e.text
  | .potentialBug => .potentialBug e.text
  | .unlisted => .unknown
  | .other => .backend e.text

end Descent
