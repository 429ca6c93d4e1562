/-
# Choices of method

A minimization is put together from a few closed choices, each read from its
name without regard to case.

* `Algorithm`, `SearchKind`, `StepRule`, `ConjugacyRule`, `MetricVariant` : the
  choices;
* `Algorithm.parse`, … : reading a name, with the failure that lists the valid
  names.
-/
import Descent.Failure
import Descent.Name

namespace Descent

variable {α : Type}

/-! ## Algorithms -/

/-- The families of search directions. -/
inductive Algorithm where
  /-- Nonlinear conjugate gradients, for problems without bounds. -/
  | conjugateGradient
  /-- A variable metric with limited memory. -/
  | variableMetric
  deriving DecidableEq, Repr

/-- The names of the algorithms. -/
def Algorithm.names : List (String × Algorithm) :=
  [("nlcg", .conjugateGradient), ("vmlmb", .variableMetric)]

/-- Reads the name of an algorithm. -/
def Algorithm.parse (name : String) : Except (Failure α) Algorithm :=
  match findName? names name with
  | some choice => .ok choice
  | none =>
    .error (.unknownAlgorithm name "Valid options are case insensitive 'nlcg' or 'vmlmb'.")

/-! ## Line searches -/

/-- The line searches. -/
inductive SearchKind where
  /-- Sufficient decrease, backtracking to the minimizer of a parabola. -/
  | quadratic
  /-- Sufficient decrease, backtracking by halves. -/
  | armijo
  /-- Sufficient decrease and small slope, by bracketing and cubic interpolation. -/
  | cubic
  /-- Sufficient decrease below the greatest of the recent values. -/
  | nonmonotone
  deriving DecidableEq, Repr

/-- The names of the line searches. -/
def SearchKind.names : List (String × SearchKind) :=
  [("quadratic", .quadratic), ("armijo", .armijo), ("cubic", .cubic), ("morethuente", .cubic),
    ("nonmonotone", .nonmonotone)]

/-- Reads the name of a line search. -/
def SearchKind.parse (name : String) : Except (Failure α) SearchKind :=
  match findName? names name with
  | some choice => .ok choice
  | none =>
    .error (.unknownLineSearch name
      "Valid options are case insensitive 'quadratic', 'armijo', 'cubic', or 'nonmonotone'.")

/-! ## First steps -/

/-- The rules that estimate the first step of a line search. -/
inductive StepRule where
  /-- The last decrease to first order is repeated. -/
  | shannoPhua
  /-- The curvature is the ratio of the gradient change to the step. -/
  | orenSpedicato
  /-- The curvature is the mean curvature along the last step. -/
  | barzilaiBorwein
  deriving DecidableEq, Repr

/-- The names of the rules for first steps. -/
def StepRule.names : List (String × StepRule) :=
  [("shannophua", .shannoPhua), ("orenspedicato", .orenSpedicato),
    ("barzilaiborwein", .barzilaiBorwein)]

/-- Reads the name of a rule for first steps. -/
def StepRule.parse (name : String) : Except (Failure α) StepRule :=
  match findName? names name with
  | some choice => .ok choice
  | none =>
    .error (.unknownStepRule name <|
      "Valid options are case insensitive 'ShannoPhua', 'OrenSpedicato', " ++
        "or 'BarzilaiBorwein'.")

/-! ## Conjugacy -/

/-- The formulas for the weight of the previous direction in the next one. -/
inductive ConjugacyRule where
  | fletcherReeves
  | hestenesStiefel
  | polakRibierePolyak
  | fletcher
  | liuStorey
  | daiYuan
  | perryShanno
  | hagerZhang
  deriving DecidableEq, Repr

/-- The names of the conjugacy rules. -/
def ConjugacyRule.names : List (String × ConjugacyRule) :=
  [("fletcherreeves", .fletcherReeves), ("hestenesstiefel", .hestenesStiefel),
    ("polakribierepolyak", .polakRibierePolyak), ("fletcher", .fletcher),
    ("liustorey", .liuStorey), ("daiyuan", .daiYuan), ("perryshanno", .perryShanno),
    ("hagerzhang", .hagerZhang)]

/-- Reads the name of a conjugacy rule. -/
def ConjugacyRule.parse (name : String) : Except (Failure α) ConjugacyRule :=
  match findName? names name with
  | some choice => .ok choice
  | none =>
    .error (.unknownConjugacyRule name <|
      "Valid options are case insensitive 'FletcherReeves', 'HestenesStiefel', " ++
        "'PolakRibierePolyak', 'Fletcher', 'LiuStorey', 'DaiYuan', 'PerryShanno', " ++
        "or 'HagerZhang'.")

/-! ## Variable metrics -/

/-- The ways in which the variable metric treats bounds. -/
inductive MetricVariant where
  /-- The metric is applied to the projected gradient. -/
  | blmvm
  /-- The metric is confined to the free components. -/
  | vmlmb
  /-- The metric is applied to the gradient; there are no bounds. -/
  | lbfgs
  deriving DecidableEq, Repr

/-- The names of the variants of the variable metric. -/
def MetricVariant.names : List (String × MetricVariant) :=
  [("blmvm", .blmvm), ("vmlmb", .vmlmb), ("lbfgs", .lbfgs)]

/-- Reads the name of a variant of the variable metric. -/
def MetricVariant.parse (name : String) : Except (Failure α) MetricVariant :=
  match findName? names name with
  | some choice => .ok choice
  | none =>
    .error (.unknownMetricVariant name
      "Valid options are case insensitive 'blmvm', 'vmlmb', or 'lbfgs'.")

end Descent
