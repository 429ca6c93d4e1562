/-
# Tasks

What an optimizer asks its caller to do, and why.

* `Task`, `Status` : the two vocabularies, with the names under which they are
  reported;
* `Query` : what a caller can ask an optimizer by name.
-/
import Descent.Failure
import Descent.Name

namespace Descent

/-- What the caller is asked to do next. -/
inductive Task where
  /-- Nothing yet. -/
  | start
  /-- Evaluate the objective and its gradient. -/
  | computeFG
  /-- Look at a new accepted point. -/
  | newX
  /-- Stop at a stationary point. -/
  | finalX
  /-- Stop at an accepted point that is not known to be stationary. -/
  | warning
  /-- Stop because the run cannot go on. -/
  | error
  /-- Stop because the run could not begin. -/
  | inputError
  deriving DecidableEq, Repr

/-- The reason for a task. -/
inductive Status where
  | success
  | invalidArgument
  | infeasibleBounds
  | gradientConvergence
  | notADescent
  | lineSearchFailure
  | roundingErrors
  | undefinedValue
  | tooManyIterations
  | tooManyEvaluations
  deriving DecidableEq, Repr

/-- The tasks that end a run. -/
def Task.isTerminal : Task → Bool
  | .finalX | .warning | .error | .inputError => true
  | .start | .computeFG | .newX => false

/-- The name of a task. -/
def Task.name : Task → String
  | .start => "START"
  | .computeFG => "COMPUTE_FG"
  | .newX => "NEW_X"
  | .finalX => "FINAL_X"
  | .warning => "WARNING"
  | .error => "ERROR"
  | .inputError => "INPUT_ERROR"

/-- The name of a status. -/
def Status.name : Status → String
  | .success => "SUCCESS"
  | .invalidArgument => "INVALID_ARGUMENT"
  | .infeasibleBounds => "INFEASIBLE_BOUNDS"
  | .gradientConvergence => "GRADIENT_CONVERGENCE"
  | .notADescent => "NOT_A_DESCENT"
  | .lineSearchFailure => "LINE_SEARCH_FAILURE"
  | .roundingErrors => "ROUNDING_ERRORS"
  | .undefinedValue => "UNDEFINED_VALUE"
  | .tooManyIterations => "TOO_MANY_ITERATIONS"
  | .tooManyEvaluations => "TOO_MANY_EVALUATIONS"

/-! ## Queries -/

/-- What a caller can ask for by name. -/
inductive Query where
  | task
  | status
  | iterations
  | evaluations
  | restarts
  | step
  deriving DecidableEq, Repr

/-- The names of the queries. -/
def Query.names : List (String × Query) :=
  [("get_task", .task), ("get_status", .status), ("get_iterations", .iterations),
    ("get_evaluations", .evaluations), ("get_restarts", .restarts), ("get_step", .step)]

/-- Reads the name of a query. -/
def Query.parse {α : Type} (name : String) : Except (Failure α) Query :=
  match findName? names name with
  | some query => .ok query
  | none => .error (.unknownQuery name)

end Descent
