/-
# Calls and evaluations

How often a run that is made step by step calls its problem, against the evaluations
that its optimizer counts.  An answer at a starting point outside the box is thrown
away, but the problem has been called for it.

* `Session.Tally` : the calls made and the evaluations counted so far;
* `Session.Tally.iterate` : an exchange keeps the tally;
* `Session.Tally.answerRequests` : so does answering all requests;
* `Stepper.Tallied` : a stepper between two steps, and what the steps do to it;
* `Stepper.counts_calls` : the counts of an outcome.
-/
import Descent.Proofs.Stepping

namespace Descent

open Scalar

variable {σ ε α : Type} [Scalar α]

/-! ## Sessions -/

namespace Session

/-- Value and gradient were called for equally often, once for every evaluation counted
and a number of times more; a detour that the run has still to take is one of these. -/
def Tally (extra : Nat) (s : Session α) (calls : Calls) : Prop :=
  calls.cost = calls.gradient ∧
    ∃ (r : Solver α s.dimension) (x : Vector α s.dimension),
      s.optimizer.body = .ok r ∧ s.x = x.toArray ∧ r.Driveable s.optimizer.config x ∧
        calls.cost + r.detour x = r.evaluations + extra

variable {extra : Nat} {s : Session α} {calls : Calls}

/-- At an accepted point no detour is left, and some evaluation has been counted. -/
theorem Tally.of_accepted? (h : s.Tally extra calls) {q : Point α s.dimension}
    (hq : s.optimizer.accepted? = some q) :
    calls.cost = calls.gradient ∧ calls.cost = s.optimizer.evaluations + extra ∧
      0 < s.optimizer.evaluations := by
  obtain ⟨hsame, r, x, hbody, -, hr, hcount⟩ := h
  have hopen : s.optimizer.closed = false := by
    by_contra hclosed
    rw [Optimizer.accepted?, if_pos (by simpa using hclosed)] at hq
    cases hq
  rw [Optimizer.accepted?_of_body hopen hbody] at hq
  have hlt := hr.budget.accepted q hq
  rw [Solver.detour_eq_zero (Solver.ne_opening_of_accepted? hq)] at hcount
  rw [Optimizer.evaluations_of_body hbody]
  refine ⟨hsame, hcount, ?_⟩
  omega

variable [OrderedScalar α]

/-- An exchange keeps the tally, if the calls that it was asked to make are counted. -/
theorem Tally.iterate (h : s.Tally extra calls) (hrunning : s.optimizer.task.isTerminal = false)
    {f : α} {g : Array α} {optimizer : Optimizer α s.dimension} {x : Array α}
    (hiter : s.optimizer.iterate s.x f g = .ok (optimizer, x)) {calls' : Calls}
    (hcost : calls'.cost = calls.cost + if s.optimizer.task = .computeFG then 1 else 0)
    (hgradient : calls'.gradient =
      calls.gradient + if s.optimizer.task = .computeFG then 1 else 0) (f' : α) (g' : Array α) :
    ({ s with optimizer, x, f := f', g := g' } : Session α).Tally extra calls' := by
  obtain ⟨hsame, r, xs, hbody, hxs, hr, hcount⟩ := h
  rcases Optimizer.iterate_eq_ok hiter with
    ⟨hterm, -⟩ | ⟨r₀, r', xs₀, gs, xs', -, hbody₀, hgoes, hxs₀, -, rfl, rfl, htrans⟩
  · rw [hrunning] at hterm
    cases hterm
  · rw [hbody] at hbody₀
    cases hbody₀
    rw [hxs, Vector.toArray_inj] at hxs₀
    subst hxs₀
    have hcounted := htrans.evaluations_add_detour hgoes
    rw [← Optimizer.task_of_body hbody] at hcounted
    refine ⟨?_, r', xs', Optimizer.body_proceed _ _, rfl, htrans.driveable hr, ?_⟩
    · rw [hcost, hgradient, hsame]
    · rw [htrans.detour_eq_zero hr, hcost]
      omega

/-- Answering the requests of a session keeps the tally, unless it is interrupted. -/
theorem Tally.answerRequests (h : s.Tally extra calls) (p : Problem σ ε α) (fuel : Nat)
    {state state' : σ} {s' : Session α} {calls' : Calls} {task : Task}
    (heq : s.answerRequests p fuel calls state = ((s', calls', .ok task), state')) :
    s'.Tally extra calls' := by
  induction fuel generalizing s calls state with
  | zero =>
    rw [Session.answerRequests] at heq
    obtain ⟨rfl, hrest⟩ := Prod.mk.inj (congrArg Prod.fst heq)
    obtain ⟨rfl, -⟩ := Prod.mk.inj hrest
    exact h
  | succ fuel ih =>
    by_cases htask : s.optimizer.task = .computeFG
    · rcases p.callback_cases s.x s.g state with
        ⟨e, state₁, -, hanswer⟩ |
          ⟨f, state₁, hcost, ⟨e, state₂, -, hanswer⟩ | ⟨g, state₂, hgradient, -⟩⟩
      · obtain ⟨f', calls₁, hproblem⟩ := answerRequests_of_problem fuel calls htask hanswer
        rw [hproblem] at heq
        cases heq
      · obtain ⟨f', calls₁, hproblem⟩ := answerRequests_of_problem fuel calls htask hanswer
        rw [hproblem] at heq
        cases heq
      · rw [answerRequests_of_evaluation fuel calls htask hcost hgradient, answerOn] at heq
        cases hiter : s.optimizer.iterate s.x f g with
        | error e =>
          rw [hiter] at heq
          cases heq
        | ok next =>
          rw [hiter] at heq
          have hrunning : s.optimizer.task.isTerminal = false := by
            rw [htask]
            rfl
          refine ih (h.iterate hrunning hiter ?_ ?_ f g) heq
          · rw [if_pos htask]
          · rw [if_pos htask]
    · rw [answerRequests_of_idle p (fuel + 1) s calls htask] at heq
      cases heq
      exact h

/-- Leaving an accepted point keeps the tally. -/
theorem Tally.depart (h : s.Tally extra calls) {s' : Session α}
    (heq : s.depart (ε := ε) = .ok s') : s'.Tally extra calls := by
  unfold Session.depart at heq
  split at heq
  · next htask =>
    have hrunning : s.optimizer.task.isTerminal = false := by
      rw [htask]
      rfl
    have hasked : s.optimizer.task ≠ .computeFG := by
      rw [htask]
      decide
    cases hiter : s.optimizer.iterate s.x s.f s.g with
    | error e =>
      rw [hiter] at heq
      cases heq
    | ok next =>
      rw [hiter] at heq
      cases heq
      refine h.iterate hrunning hiter ?_ ?_ s.f s.g
      · rw [if_neg hasked, Nat.add_zero]
      · rw [if_neg hasked, Nat.add_zero]
  · cases heq
    exact h

end Session

/-! ## Steppers -/

namespace Stepper

/-- Between two steps the session of a stepper is at an accepted point, and its calls are
tallied. -/
def Tallied (extra : Nat) (st : Stepper α) : Prop :=
  ∃ s q, st.session = some s ∧ s.optimizer.accepted? = some q ∧ s.Tally extra st.calls

variable {extra : Nat} {p : Problem σ ε α} {st st' : Stepper α} {s : Session α}
  {report report' : Report α} {state state' : σ}

theorem exists_accepted?_of_report {task : Task} (h : s.report (ε := ε) task = .ok report) :
    ∃ q, s.optimizer.accepted? = some q := by
  unfold Session.report at h
  split at h
  · cases h
  · cases hq : s.optimizer.accepted? with
    | none =>
      rw [hq] at h
      cases h
    | some q => exact ⟨q, rfl⟩

/-- The outcome of a stepper lists the calls: as many as there were evaluations, and the
extra ones. -/
theorem Tallied.outcome (h : st.Tallied extra) {outcome : Outcome α}
    (heq : st.outcome (ε := ε) report = .ok outcome) :
    outcome.evaluationCounts =
      [("cost_count", outcome.evaluations + extra),
        ("gradient_count", outcome.evaluations + extra)] := by
  obtain ⟨s, q, hsession, hq, htally⟩ := h
  obtain ⟨hsame, hcount, hpos⟩ := htally.of_accepted? hq
  have hlisted : st.calls.toList =
      [("cost_count", s.optimizer.evaluations + extra),
        ("gradient_count", s.optimizer.evaluations + extra)] := by
    unfold Calls.toList
    rw [← hsame, hcount]
    have hlt : 0 < s.optimizer.evaluations + extra := Nat.add_pos_left hpos extra
    simp [hlt]
  unfold Stepper.outcome at heq
  rw [hsession] at heq
  dsimp only at heq
  unfold Outcome.ofRun at heq
  dsimp only at heq
  cases hstart : checkStart report.x with
  | error e =>
    rw [hstart] at heq
    cases heq
  | ok u =>
    cases hvalue : checkValue report.f with
    | error e =>
      rw [hstart, hvalue] at heq
      cases heq
    | ok u =>
      rw [hstart, hvalue] at heq
      cases heq
      exact hlisted

variable [OrderedScalar α]

/-- A session that is pursued to a report leaves the stepper tallied. -/
theorem tallied_of_pursue (h : s.Tally extra st.calls)
    (heq : st.pursue p s state = ((st', .ok report), state')) : st'.Tallied extra := by
  rcases hrequests : s.answerRequests p st.config.exchanges st.calls state with
    ⟨⟨s', calls, result⟩, state₁⟩
  have hpursue := (bind_apply hrequests).symm.trans heq
  cases result with
  | error e => cases hpursue
  | ok task =>
    obtain ⟨hst, hreport⟩ := Prod.mk.inj (congrArg Prod.fst hpursue)
    obtain ⟨q, hq⟩ := exists_accepted?_of_report (ε := ε) hreport
    subst hst
    exact ⟨s', q, rfl, hq, h.answerRequests p _ hrequests⟩

/-- A step that ends with a report keeps a stepper tallied. -/
theorem Tallied.next (h : st.Tallied extra)
    (heq : st.next p state = ((st', .ok report), state')) : st'.Tallied extra := by
  obtain ⟨s, q, hsession, -, htally⟩ := h
  unfold Stepper.next at heq
  rw [hsession] at heq
  dsimp only at heq
  cases hdepart : s.depart (ε := ε) with
  | error e =>
    rw [hdepart] at heq
    cases heq
  | ok s' =>
    rw [hdepart] at heq
    exact tallied_of_pursue (htally.depart hdepart) heq

/-- So do all steps up to the end of the run. -/
theorem Tallied.finish (h : st.Tallied extra) (steps : Nat)
    (heq : st.finish p steps report state = ((st', .ok report'), state')) :
    st'.Tallied extra := by
  induction steps generalizing st report state with
  | zero =>
    rw [Stepper.finish] at heq
    obtain ⟨rfl, -⟩ := Prod.mk.inj (congrArg Prod.fst heq)
    exact h
  | succ steps ih =>
    cases hhalt : report.halt.isSome with
    | true =>
      rw [finish_of_halt (steps + 1) st hhalt] at heq
      cases heq
      exact h
    | false =>
      rw [Stepper.finish, if_neg (by rw [hhalt]; exact Bool.false_ne_true)] at heq
      rcases hnext : st.next p state with ⟨⟨st₁, result⟩, state₁⟩
      have hrest := (bind_apply hnext).symm.trans heq
      cases result with
      | error e => cases hrest
      | ok report₁ => exact ih (h.next hnext) hrest

/-- A run that has begun is tallied: nothing has been called yet, and the detour of the
starting point is extra. -/
theorem tally_of_begin? {n : Nat} {x₀ : Vector α n} {c : Config α} {bounds : Bounds α}
    {r : Solver α n} (h : Optimizer.begin? x₀ c bounds = .ok r) (f : α) (g : Array α) :
    ({ optimizer := Optimizer.start x₀ c bounds, x := x₀.toArray, f, g } : Session α).Tally
      (if (Optimizer.start x₀ c bounds).opensOutside x₀ then 1 else 0) {} := by
  have hr := Optimizer.driveable_of_begin? h
  have hopening := Optimizer.phase_of_begin? h
  refine ⟨rfl, r, x₀, h, rfl, hr, ?_⟩
  rw [(hr.budget.opening hopening).1, Optimizer.detour_of_begin? h]

theorem tallied_of_init {n : Nat} {c : Config α} {bounds : Bounds α} (x₀ : Vector α n)
    (heq : init p { config := c, bounds } (some x₀.toArray) state =
      ((st', .ok report), state')) :
    st'.Tallied (if (Optimizer.start x₀ c bounds).opensOutside x₀ then 1 else 0) := by
  cases hbegin : Optimizer.begin? x₀ c bounds with
  | error e =>
    rw [init_of_begin?_eq_error p _ x₀ hbegin state] at heq
    cases heq
  | ok r =>
    rw [init_of_begin? p _ x₀ hbegin] at heq
    exact tallied_of_pursue (tally_of_begin? hbegin 0 _) heq

/-- **Calls and evaluations.**  Whatever the configuration, the bounds, the starting point
and the problem, a run that ends with an outcome has called for the value and for the
gradient equally often: once for every evaluation that its optimizer counts, and once more
if the starting point lies outside the box. -/
theorem counts_calls {n : Nat} (p : Problem σ ε α) (c : Config α) (bounds : Bounds α)
    (x₀ : Vector α n) (state : σ) {outcome : Outcome α} {state' : σ}
    (h : run p { config := c, bounds } x₀.toArray state = (.ok outcome, state')) :
    outcome.evaluationCounts =
      let calls :=
        outcome.evaluations + if (Optimizer.start x₀ c bounds).opensOutside x₀ then 1 else 0
      [("cost_count", calls), ("gradient_count", calls)] := by
  rcases hinit : init p { config := c, bounds } (some x₀.toArray) state with
    ⟨⟨st, result⟩, state₁⟩
  have hrest := (bind_apply hinit).symm.trans h
  cases result with
  | error e => cases hrest
  | ok report =>
    rcases hfinish : st.finish p st.config.exchanges report state₁ with ⟨⟨st', last⟩, state₂⟩
    have houtcome := (bind_apply hfinish).symm.trans hrest
    cases last with
    | error e => cases houtcome
    | ok report' =>
      exact ((tallied_of_init x₀ hinit).finish _ hfinish).outcome (congrArg Prod.fst houtcome)

/-- Bounds between zero and one, with a method that respects them. -/
def unitBox : Stepper Float :=
  { config := { algorithm := .variableMetric, metric := .blmvm }
    bounds := ⟨.uniform 0, .uniform 1⟩ }

/-- Double precision, from outside the bounds: the problem is called eight times. -/
theorem run_unitBox :
    ∃ outcome, run countedSquares unitBox #[3] 0 = (.ok outcome, 8) ∧
      outcome.evaluations = 3 ∧
      outcome.evaluationCounts = [("cost_count", 4), ("gradient_count", 4)] := by
  have hresult : ((run countedSquares unitBox #[3] 0).1.toOption.map fun outcome =>
      (outcome.evaluations, outcome.evaluationCounts)) =
        some (3, [("cost_count", 4), ("gradient_count", 4)]) := by decide +kernel
  have hstate : (run countedSquares unitBox #[3] 0).2 = 8 := by decide +kernel
  rcases hrun : run countedSquares unitBox #[3] 0 with ⟨result, state'⟩
  rw [hrun] at hresult hstate
  cases result with
  | error e => cases hresult
  | ok outcome =>
    obtain ⟨hevaluations, hcounts⟩ := Prod.mk.inj (Option.some.inj hresult)
    exact ⟨outcome, Prod.ext rfl hstate, hevaluations, hcounts⟩

/-- The calls for that run are counted with the detour. -/
theorem unitBox_counts_detour :
    ∃ outcome, run countedSquares unitBox #[3] 0 = (.ok outcome, 8) ∧
      outcome.evaluationCounts =
        [("cost_count", outcome.evaluations + 1), ("gradient_count", outcome.evaluations + 1)] := by
  obtain ⟨outcome, hrun, -, -⟩ := run_unitBox
  have hcounts := counts_calls countedSquares unitBox.config unitBox.bounds #v[3] 0 hrun
  have houtside : (Optimizer.start #v[3] unitBox.config unitBox.bounds).opensOutside #v[3] =
      true := by decide +kernel
  rw [houtside, if_pos rfl] at hcounts
  exact ⟨outcome, hrun, hcounts⟩

/-- So they are more than the evaluations that its optimizer counts. -/
theorem unitBox_counts_differ :
    ∃ outcome, run countedSquares unitBox #[3] 0 = (.ok outcome, 8) ∧
      outcome.evaluationCounts ≠
        [("cost_count", outcome.evaluations), ("gradient_count", outcome.evaluations)] := by
  obtain ⟨outcome, hrun, hevaluations, hcounts⟩ := run_unitBox
  refine ⟨outcome, hrun, ?_⟩
  rw [hevaluations, hcounts]
  decide

end Stepper

end Descent
