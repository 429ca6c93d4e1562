import Descent.Scalar
import Descent.Dense
import Descent.Decimal.Shortest
import Descent.Decimal.Plain
import Descent.Name
import Descent.Failure
import Descent.Config.Choice
import Descent.Config
import Descent.Config.Validity
import Descent.Box.Interval
import Descent.Box.Bounds
import Descent.Box
import Descent.Recent
import Descent.LineSearch.StopReason
import Descent.LineSearch.Bracket
import Descent.LineSearch.Run
import Descent.LineSearch
import Descent.Direction.StepLength
import Descent.Direction.ConjugateGradient
import Descent.Direction.ConjugateEngine
import Descent.Direction.VariableMetric
import Descent.Direction.Metric
import Descent.Direction.TwoLoop
import Descent.Optimizer.Task
import Descent.Optimizer.Verdict
import Descent.Optimizer.Solver
import Descent.Optimizer.Advance
import Descent.Optimizer
import Descent.Optimizer.Machine
import Descent.Minimize.Drive
import Descent.Minimize.Outcome
import Descent.Minimize.Stepper
import Descent.Minimize.Objective
import Descent.Minimize.Adapter
import Descent.Proofs.Transition
import Descent.Proofs.Exchange
import Descent.Proofs.AcceptedPoint
import Descent.Proofs.Comparison
import Descent.Proofs.Projection
import Descent.Proofs.Budget
import Descent.Proofs.Termination
import Descent.Proofs.AcceptedValues
import Descent.Proofs.Stationarity
import Descent.Proofs.Feasibility
import Descent.Proofs.Failures
import Descent.Proofs.Stepping
import Descent.Proofs.Representation
import Descent.Proofs.Protocol
import Descent.Proofs.Binary.Nearest
import Descent.Proofs.Binary.Roots
import Descent.Proofs.Opening
import Descent.Proofs.Exact.Real
import Descent.Proofs.Exact.Scalars
import Descent.Proofs.InverseMatrix
import Descent.Proofs.MetricDescent
import Descent.Proofs.CurvatureMemory
import Descent.Proofs.Departure
import Descent.Proofs.Conversation
import Descent.Proofs.Limits
import Descent.Proofs.Exact.Strict
import Descent.Proofs.Bracketing
import Descent.Proofs.Shrinking
import Descent.Proofs.SearchEnds
import Descent.Proofs.Symmetry.Vectors
import Descent.Proofs.Symmetry.Boxes
import Descent.Proofs.Symmetry.Directions
import Descent.Proofs.Symmetry.Searches
import Descent.Proofs.Symmetry.Runs
import Descent.Proofs.Symmetry.Starts
import Descent.Proofs.Symmetry.Conversations
import Descent.Proofs.Resumption
import Descent.Proofs.Reports
import Descent.Proofs.CallCounts
import Descent.Proofs.Unbounded
import Descent.Proofs.TrialSteps
import Descent.Proofs.Backtracking
import Descent.Proofs.Acceptance
import Descent.Proofs.ProjectedPath
import Descent.Proofs.ClippedSteps
import Descent.Proofs.Optimality
import Descent.Proofs.ConjugateWeights
import Descent.Proofs.Exact.Conjugate
import Descent.Proofs.ConjugateDescent
import Descent.Proofs.Binary.Signs
import Descent.Proofs.Restarts
import Descent.Proofs.OrthogonalGradients
import Descent.Proofs.Damping
import Descent.Proofs.IrrelevantAnswers
import Descent.Proofs.GradientFallback
import Descent.Proofs.Nesting
import Descent.Proofs.RoundingError
import Descent.Proofs.Binary.Errors
import Descent.Proofs.DecreaseTests
import Descent.Proofs.FailingSteps
import Descent.Proofs.ValidInput
import Descent.Proofs.NearestPoints
import Descent.Proofs.FreshStarts
