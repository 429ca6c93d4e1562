/-
# Reasons to stop a line search

Why a line search stops without having met all its conditions.

* `StopReason` : the reasons;
* `StopReason.text_injective` : each has a text of its own.
-/

namespace Descent

/-- A reason why a line search cannot go on. -/
inductive StopReason where
  /-- The bracket is too narrow for another trial inside it. -/
  | roundingErrors
  /-- The bracket is narrower than the tolerance. -/
  | narrowBracket
  /-- The greatest step still descends steeply enough. -/
  | atMaximumStep
  /-- The least step does not descend enough. -/
  | atMinimumStep
  /-- Backtracking would go below the least step. -/
  | belowMinimumStep
  /-- The limit on backtracking steps is reached. -/
  | tooManyBacktracks
  /-- The limit on trials is reached. -/
  | tooManyTrials
  /-- The range of admissible steps is empty. -/
  | invalidRange
  deriving DecidableEq, Repr

namespace StopReason

/-- A reason in words. -/
def text : StopReason → String
  | roundingErrors => "rounding errors prevent progress"
  | narrowBracket => "xtol test satisfied"
  | atMaximumStep => "step is at the maximum step"
  | atMinimumStep => "step is at the minimum step"
  | belowMinimumStep => "step is below the minimum step"
  | tooManyBacktracks => "too many backtracking steps"
  | tooManyTrials => "too many line-search trials"
  | invalidRange => "invalid step bounds"

/-- Different reasons have different texts. -/
theorem text_injective {r s : StopReason} (h : r.text = s.text) : r = s := by
  revert h
  cases r <;> cases s <;> decide

end StopReason

end Descent
