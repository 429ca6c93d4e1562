/-
# What a run reports

Task, status, failure on record and counters, in every state that can be reached: which
of them go together.

* `Verdict.Backed`, `Solver.Transition.backed` : a budget is called spent when it is;
* `Consistent` : the combinations;
* `Optimizer.Reachable.consistent` : an optimizer shows one of them;
* `Machine.reports_consistently` : so does the machine with a field for each.
-/
import Descent.Proofs.Budget
import Descent.Proofs.Protocol

namespace Descent

open Scalar

variable {α : Type} [Scalar α] {n : Nat}

/-! ## Budgets that are called spent -/

/-- A verdict that calls a budget spent is backed by the counter that goes with it. -/
def Verdict.Backed (c : Config α) (iterations evaluations : Nat) : Verdict α → Prop
  | iterationsSpent => c.maxIterations ≤ iterations
  | evaluationsSpent => max 1 c.maxEvaluations ≤ evaluations
  | _ => True

/-- An answer that is not finite spends no budget. -/
theorem Verdict.backed_of_flaw? {f : α} {g : Vector α n} {v : Verdict α}
    (h : flaw? f g = some v) (c : Config α) (iterations evaluations : Nat) :
    v.Backed c iterations evaluations := by
  have hstatus := status_of_flaw? h
  cases v with
  | iterationsSpent => cases hstatus
  | evaluationsSpent => cases hstatus
  | _ => trivial

theorem Verdict.backed_ofRefusal (refusal : Refusal α) (c : Config α)
    (iterations evaluations : Nat) : (ofRefusal refusal).Backed c iterations evaluations := by
  cases refusal <;> trivial

namespace Solver

/-- The verdict of a run, if there is one, is backed by its counters. -/
def Backed (c : Config α) (s : Solver α n) : Prop :=
  ∀ v, s.phase.verdict? = some v → v.Backed c s.iterations s.evaluations

/-- The tests at a newly accepted point call the steps spent when they are. -/
theorem backed_heed_settle (c : Config α) (s : Solver α n) (p : Point α n)
    (remark : Option StopReason) {v : Verdict α}
    (h : (heed remark (s.settle c p)).verdict? = some v) :
    v.Backed c s.iterations s.evaluations := by
  unfold heed at h
  split at h
  · cases h
    trivial
  · unfold settle at h
    split at h
    · cases h
      trivial
    · split at h
      · next hspent =>
        cases h
        exact hspent
      · cases h

variable {c : Config α} {s s' : Solver α n} {x x' g : Vector α n} {f : α}

/-- Every transition of a run within its budgets leads to a verdict that is backed. -/
theorem Transition.backed (h : Transition c s x f g s' x') (hs : s.WithinBudget c)
    (hbacked : s.Backed c) : s'.Backed c := by
  intro v hv
  cases h with
  | project hphase hx => exact hbacked v hv
  | idle last verdict hphase => exact hbacked v hv
  | flawAtFirst flaw hphase hx hflaw =>
    cases hv
    exact Verdict.backed_of_flaw? hflaw c _ _
  | first hphase hx hflaw => exact backed_heed_settle c _ _ none hv
  | flawAtTrial trial flaw hphase hflaw =>
    cases hv
    exact Verdict.backed_of_flaw? hflaw c _ _
  | spentAtTrial trial run hphase hflaw hanswer hspent =>
    cases hv
    show max 1 c.maxEvaluations ≤ s.evaluations + 1
    omega
  | retry trial run hphase hflaw hanswer hmore => cases hv
  | step trial remark hphase hflaw hanswer => exact backed_heed_settle c _ _ remark hv
  | searchFailed trial step reason hphase hflaw hanswer =>
    cases hv
    trivial
  | notDescent p hphase hslope =>
    cases hv
    trivial
  | spentAtPoint p hphase hslope hspent =>
    cases hv
    -- the accepted point has cost an evaluation, so the budget is spent if it is zero, too
    have hcost := hs.accepted p (accepted?_of_accepted hphase)
    show max 1 c.maxEvaluations ≤ s.evaluations
    omega
  | refused p range refusal hphase hslope hmore hrange hstart =>
    cases hv
    exact Verdict.backed_ofRefusal refusal c _ _
  | search p range run hphase hslope hmore hrange hstart => cases hv

end Solver

/-! ## Reports -/

/-- The combinations of task, status and failure on record that occur with a
configuration and with numbers of accepted steps and of evaluations. -/
inductive Consistent (c : Config α) (iterations evaluations : Nat) :
    Task → Status → Option (Failure α) → Prop where
  /-- An evaluation is asked for. -/
  | evaluate : Consistent c iterations evaluations .computeFG .success none
  /-- An accepted point is shown. -/
  | show : Consistent c iterations evaluations .newX .success none
  /-- The accepted point is stationary within the tolerances. -/
  | converged : Consistent c iterations evaluations .finalX .gradientConvergence none
  /-- Exactly as many steps were accepted as are allowed. -/
  | iterationsSpent (h : iterations = c.maxIterations) :
    Consistent c iterations evaluations .warning .tooManyIterations
      (some (.budgetExceeded "iterations" c.maxIterations))
  /-- Exactly as many evaluations were made as are allowed, and one in any case. -/
  | evaluationsSpent (h : evaluations = max 1 c.maxEvaluations) :
    Consistent c iterations evaluations .warning .tooManyEvaluations
      (some (.budgetExceeded "evaluations" c.maxEvaluations))
  /-- Rounding errors rule out another step. -/
  | roundingLimit : Consistent c iterations evaluations .warning .roundingErrors none
  /-- The value is not finite. -/
  | undefinedValue (value : α) :
    Consistent c iterations evaluations .error .undefinedValue (some (.nonFiniteValue value))
  /-- The gradient is not finite. -/
  | undefinedGradient (index : Nat) (value : α) (reason : String) :
    Consistent c iterations evaluations .error .undefinedValue
      (some (.invalidGradient index value reason))
  /-- No direction descends. -/
  | notDescent (slope : α) :
    Consistent c iterations evaluations .error .notADescent (some (.notDescent slope))
  /-- The line search fails because of rounding errors. -/
  | searchRounding (step : α) :
    Consistent c iterations evaluations .error .roundingErrors
      (some (.searchFailed step StopReason.roundingErrors.text))
  /-- The line search fails for another reason. -/
  | searchFailed (step : α) (reason : StopReason)
      (h : reason.text ≠ StopReason.roundingErrors.text) :
    Consistent c iterations evaluations .error .lineSearchFailure
      (some (.searchFailed step reason.text))
  /-- No point lies between the bounds. -/
  | infeasible (index : Nat) (lower upper : α) :
    Consistent c iterations evaluations .inputError .infeasibleBounds
      (some (.infeasibleBounds index lower upper))
  /-- The input is invalid in any other way. -/
  | invalid (e : Failure α) (h : ∀ index lower upper, e ≠ .infeasibleBounds index lower upper) :
    Consistent c iterations evaluations .inputError .invalidArgument (some e)

/-- What is reported with a verdict that the counters back, within the budgets. -/
theorem Verdict.consistent {c : Config α} {iterations evaluations : Nat} {v : Verdict α}
    (h : v.Backed c iterations evaluations) (hiters : iterations ≤ c.maxIterations)
    (hevals : evaluations ≤ max 1 c.maxEvaluations) :
    Consistent c iterations evaluations v.task v.status (v.failure? c) := by
  cases v with
  | converged => exact .converged
  | iterationsSpent => exact .iterationsSpent (Nat.le_antisymm hiters h)
  | evaluationsSpent => exact .evaluationsSpent (Nat.le_antisymm hevals h)
  | roundingLimit => exact .roundingLimit
  | undefinedValue value => exact .undefinedValue value
  | undefinedGradient index value => exact .undefinedGradient index value _
  | notDescent slope => exact .notDescent slope
  | searchFailed step reason =>
    by_cases hreason : reason = .roundingErrors
    · rw [hreason]
      exact .searchRounding step
    · have hstatus : (Verdict.searchFailed step reason).status = .lineSearchFailure := by
        cases reason with
        | roundingErrors => exact absurd rfl hreason
        | _ => rfl
      rw [hstatus]
      exact .searchFailed step reason fun htext => hreason (StopReason.text_injective htext)

/-- What a run reports that is within its budgets and whose verdict is backed. -/
theorem Solver.consistent {c : Config α} {s : Solver α n} (hbacked : s.Backed c)
    (hs : s.WithinBudget c) :
    Consistent c s.iterations s.evaluations s.task s.status (s.failure? c) := by
  cases hphase : s.phase with
  | opening =>
    rw [Solver.task, Solver.status, Solver.failure?, hphase]
    exact .evaluate
  | searching trial =>
    rw [Solver.task, Solver.status, Solver.failure?, hphase]
    exact .evaluate
  | accepted p =>
    rw [Solver.task, Solver.status, Solver.failure?, hphase]
    exact .show
  | stopped last verdict =>
    have hverdict : verdict.Backed c s.iterations s.evaluations :=
      hbacked verdict (by rw [hphase]; rfl)
    rw [Solver.task, Solver.status, Solver.failure?, hphase]
    exact Verdict.consistent hverdict hs.iterations hs.evaluations

/-- What is reported about a run that could not begin. -/
theorem consistent_of_error {c : Config α} {o : Optimizer α n} {e : Failure α}
    (hbody : o.body = .error e) :
    Consistent c o.iterations o.evaluations o.task o.status o.failure? := by
  rw [Optimizer.task, Optimizer.status, Optimizer.failure?, hbody]
  cases e with
  | infeasibleBounds index lower upper => exact .infeasible index lower upper
  | _ =>
    refine .invalid _ ?_
    intro index lower upper h
    cases h

/-- What an optimizer that can be reached reports. -/
theorem Optimizer.Reachable.consistent {x₀ : Vector α n} {c : Config α} {bounds : Bounds α}
    {o : Optimizer α n} (h : Reachable x₀ c bounds o) :
    Consistent c o.iterations o.evaluations o.task o.status o.failure? := by
  cases hbody : o.body with
  | error e => exact consistent_of_error hbody
  | ok s =>
    have hs : s.WithinBudget c ∧ s.Backed c := by
      refine h.invariant (P := fun s => s.WithinBudget c ∧ s.Backed c) ?_ ?_ hbody
      · intro s hbegin
        obtain ⟨-, -, box, -, -, rfl⟩ := begin?_eq_ok hbegin
        refine ⟨Solver.withinBudget_initial c box, ?_⟩
        intro v hv
        cases hv
      · intro s x f g s' x' htrans hs
        exact ⟨htrans.withinBudget hs.1, htrans.backed hs.1 hs.2⟩
    rw [iterations_of_body hbody, evaluations_of_body hbody, task_of_body hbody,
      Optimizer.status, Optimizer.failure?, hbody, h.config_eq]
    exact Solver.consistent hs.2 hs.1

/-- **Task, status, failure and counters tell the same story.**  For any input, valid or
not, and after any series of calls and closing, what the fields of the machine show is one
of the combinations in `Consistent`. -/
theorem Machine.reports_consistently (x₀ : Vector α n) (c : Config α) (bounds : Bounds α)
    (actions : List (Action α)) :
    let m := (start x₀ c bounds).perform actions
    Consistent c m.iterations m.evaluations m.task m.status m.failure? := by
  intro m
  have h : m.Represents ((Optimizer.start x₀ c bounds).perform actions) :=
    represents_perform x₀ c bounds actions
  have hstart : Optimizer.Reachable x₀ c bounds (Optimizer.start x₀ c bounds) := .start
  rw [h.iterations, h.evaluations, h.task, h.status, h.failure]
  exact (hstart.perform actions).consistent

end Descent
