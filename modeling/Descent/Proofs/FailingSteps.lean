/-
# Failing steps

The failure that a line search leaves on record names a step.  It is the step at which the last
answer was given, with one exception: the search that brackets counts its trials after a round has
put the next step in place, and where none is left it names that step, which nobody evaluates.

* `Bracket.ne_tooManyTrials_of_stopped` : a round stops for other reasons;
* `Run.failed_cases` : the step that a run names;
* `Solver.Transition.searching_of_failure?` : a failed line search has had a trial;
* `Optimizer.names_failing_step` : the step on record and the point that was evaluated;
* `Optimizer.spent_backtracks_named`, `Optimizer.spent_trials_misnamed` : a limit on trials that
  names the step evaluated last, and one that does not.
-/
import Descent.Proofs.Binary.Laws
import Descent.Proofs.Bracketing
import Descent.Proofs.Feasibility

namespace Descent

open Scalar

variable {α : Type} [Scalar α] {n : Nat}

/-! ## Runs that fail -/

/-- A round does not stop for want of trials. -/
theorem Bracket.ne_tooManyTrials_of_stopped {c : Config α} {frame : Frame α} {b : Bracket α}
    {trial : Sample α} {reason : StopReason} (h : b.advance c frame trial = .stopped reason) :
    reason ≠ .tooManyTrials := by
  rintro rfl
  unfold advance at h
  dsimp only at h
  split at h
  · cases h
  · split at h
    · cases h
    · split at h
      · cases h
      · split at h
        · cases h
        · split at h
          · cases h
          · unfold settle at h
            split at h <;> cases h

/-- A run that fails names its own step, unless it is out of trials: then the search brackets, and
the step is the one that its last round proposed. -/
theorem Run.failed_cases {c : Config α} {run : Run α} {value slope step : α} {reason : StopReason}
    (h : run.answer c value slope = .failed step reason) :
    (reason ≠ .tooManyTrials ∧ step = run.step) ∨
      (reason = .tooManyTrials ∧ c.lineSearch = .cubic ∧
        isExhausted c (run.trials + 1) = true ∧
        ∃ bracket, run.bracket.advance c run.frame ⟨run.step, value, slope⟩ =
          .next bracket step) := by
  by_cases hcubic : c.lineSearch = .cubic
  · rw [answer, if_pos hcubic] at h
    unfold enclose at h
    dsimp only at h
    split at h
    · cases h
    · next stopped hround =>
      split at h
      · cases h
      · cases h
        exact .inl ⟨Bracket.ne_tooManyTrials_of_stopped hround, rfl⟩
    · next bracket next hround =>
      -- the trials are counted when the next step is in place already
      split at h
      · next hexhausted =>
        cases h
        exact .inr ⟨rfl, hcubic, hexhausted, bracket, hround⟩
      · cases h
  · rw [answer, if_neg hcubic] at h
    unfold backtrack at h
    dsimp only at h
    split at h
    · cases h
    · split at h
      · cases h
        exact .inl ⟨by decide, rfl⟩
      · split at h
        · cases h
          exact .inl ⟨by decide, rfl⟩
        · cases h

namespace Solver

/-- A newly accepted point leaves no failed line search on record. -/
theorem failure?_heed_settle (c : Config α) (s : Solver α n) (p : Point α n)
    (remark : Option StopReason) (step : α) (text : String) :
    (heed remark (s.settle c p)).verdict?.bind (·.failure? c) ≠
      some (.searchFailed step text) := by
  intro h
  unfold heed at h
  split at h
  · cases h
  · unfold settle at h
    split at h
    · cases h
    · split at h
      · cases h
      · cases h

theorem failure?_flaw?_ne (c : Config α) {f : α} {g : Vector α n} {flaw : Verdict α}
    (h : flaw? f g = some flaw) (step : α) (text : String) :
    flaw.failure? c ≠ some (.searchFailed step text) := by
  unfold flaw? at h
  split at h
  · cases h
    rintro ⟨⟩
  · split at h
    · cases h
      rintro ⟨⟩
    · cases h

/-- A line search that fails when it is given an answer has failed with this answer. -/
theorem Transition.searching_of_failure? {c : Config α} {s s' : Solver α n} {x x' g : Vector α n}
    {f : α} (h : Transition c s x f g s' x') (htask : s.task = .computeFG) {step : α}
    {text : String} (hfailure : s'.failure? c = some (.searchFailed step text)) :
    ∃ trial reason, s.phase = .searching trial ∧ text = reason.text ∧
      trial.run.answer c f (trialSlope trial.base x g trial.run.step) = .failed step reason := by
  cases h with
  | searchFailed trial failing reason hphase hflaw hanswer =>
    cases hfailure
    exact ⟨trial, reason, hphase, rfl, hanswer⟩
  | project hphase hx =>
    rw [failure?, hphase] at hfailure
    cases hfailure
  | idle last verdict hphase =>
    rw [task, hphase] at htask
    have hterminal := verdict.isTerminal_task
    rw [show verdict.task = .computeFG from htask] at hterminal
    cases hterminal
  | flawAtFirst flaw hphase hx hflaw => exact absurd hfailure (failure?_flaw?_ne c hflaw step text)
  | flawAtTrial trial flaw hphase hflaw =>
    exact absurd hfailure (failure?_flaw?_ne c hflaw step text)
  | first hphase hx hflaw => exact absurd hfailure (failure?_heed_settle c _ _ none step text)
  | step trial remark hphase hflaw hanswer =>
    exact absurd hfailure (failure?_heed_settle c _ _ remark step text)
  | spentAtTrial | retry => cases hfailure
  | notDescent p hphase | spentAtPoint p hphase | refused p range refusal hphase
    | search p range run hphase =>
    rw [task, hphase] at htask
    cases htask

end Solver

namespace Optimizer

/-! ## The step on record -/

/-- A run that waits for a trial, at its beginning or on its course, has handed back the point of
this trial, along with the accepted point. -/
theorem trial_of_mem_course {x₀ : Vector α n} {c : Config α} {bounds : Bounds α}
    {s₀ : Solver α n} (h : begin? x₀ c bounds = .ok s₀) (replies : List (α × Array α))
    {o : Optimizer α n} {x : Array α}
    (hmem : (o, x) ∈ (start x₀ c bounds, x₀.toArray) ::
      (start x₀ c bounds).course x₀.toArray replies)
    {s : Solver α n} {trial : Trial α n} (hbody : o.body = .ok s)
    (hphase : s.phase = .searching trial) : x = (trial.point s₀.box).toArray := by
  rcases List.mem_cons.mp hmem with hfirst | hlater
  · cases hfirst
    rw [start, h] at hbody
    cases hbody
    rw [phase_of_begin? h] at hphase
    cases hphase
  · exact point_eq_of_mem_course (o := start x₀ c bounds) h replies hlater hbody hphase

/-- The states on the course of a run have its settings. -/
theorem config_of_mem_course {o o' : Optimizer α n} {x x' : Array α}
    {replies : List (α × Array α)} (h : (o', x') ∈ o.course x replies) :
    o'.config = o.config := by
  induction replies generalizing o x with
  | nil => cases h
  | cons reply replies ih =>
    rw [course] at h
    cases hcall : o.iterate x reply.1 reply.2 with
    | error e =>
      rw [hcall] at h
      exact ih h
    | ok next =>
      obtain ⟨o₁, x₁⟩ := next
      rw [hcall] at h
      have hnext : o₁.config = o.config := by
        rcases iterate_eq_ok hcall with
          ⟨-, hsame, -⟩ | ⟨s, s', xs, gs, xs', -, -, -, -, -, hnext, -⟩
        · rw [hsame]
        · rw [hnext, config_proceed]
      rcases List.mem_cons.mp h with hfirst | hlater
      · rw [show o' = o₁ from congrArg Prod.fst hfirst]
        exact hnext
      · exact (ih hlater).trans hnext

/-- **The failing step.**  In a run whose caller passes every point back, an answer to a request
for an evaluation leaves a failed line search on record.  Then the point handed back before was
that of a trial: the point of the box nearest to the one reached from the accepted point by the
step of the trial along its direction.

* For every reason but one the step on record is the step of this trial.
* Where the trials are spent, the search brackets, its limit is reached, and the step on record is
  the one that the round about the answer proposed next. -/
theorem names_failing_step {x₀ : Vector α n} {c : Config α} {bounds : Bounds α}
    {s₀ : Solver α n} (h : begin? x₀ c bounds = .ok s₀) (replies : List (α × Array α))
    {o : Optimizer α n} {x : Array α}
    (hmem : (o, x) ∈ (start x₀ c bounds, x₀.toArray) ::
      (start x₀ c bounds).course x₀.toArray replies)
    (htask : o.task = .computeFG) {f : α} {g : Array α} {o' : Optimizer α n} {x' : Array α}
    (hcall : o.iterate x f g = .ok (o', x')) {step : α} {text : String}
    (hfailure : o'.failure? = some (.searchFailed step text)) :
    ∃ (s : Solver α n) (trial : Trial α n) (reason : StopReason),
      o.body = .ok s ∧ s.phase = .searching trial ∧
      x = (Solver.trialPoint s₀.box trial.base trial.direction trial.run.step).toArray ∧
      text = reason.text ∧
      (reason ≠ .tooManyTrials → step = trial.run.step) ∧
      (reason = .tooManyTrials → c.lineSearch = .cubic ∧
        (∃ limit, c.maxTrials = some limit ∧ limit ≤ trial.run.trials + 1) ∧
        ∃ slope bracket, trial.run.bracket.advance c trial.run.frame
          ⟨trial.run.step, f, slope⟩ = .next bracket step) := by
  rcases iterate_eq_ok hcall with
    ⟨hended, -, -⟩ | ⟨s, s', xs, gs, xs', -, hbody, -, rfl, rfl, rfl, -, htransition⟩
  · rw [htask] at hended
    cases hended
  · have hconfig : o.config = c := by
      rcases List.mem_cons.mp hmem with hfirst | hlater
      · rw [show o = start x₀ c bounds from congrArg Prod.fst hfirst]
        rfl
      · exact config_of_mem_course hlater
    rw [hconfig] at htransition
    rw [task_of_body hbody] at htask
    have hrecord : s'.failure? c = some (.searchFailed step text) := by
      rw [← hconfig]
      exact hfailure
    obtain ⟨trial, reason, hphase, htext, hanswer⟩ :=
      htransition.searching_of_failure? htask hrecord
    have hpoint := trial_of_mem_course h replies hmem hbody hphase
    refine ⟨s, trial, reason, hbody, hphase, hpoint, htext, ?_, ?_⟩
    · intro hreason
      rcases Run.failed_cases hanswer with ⟨-, hstep⟩ | ⟨hspent, -⟩
      · exact hstep
      · exact absurd hspent hreason
    · intro hreason
      rcases Run.failed_cases hanswer with ⟨hother, -⟩ | ⟨-, hcubic, hexhausted, bracket, hround⟩
      · exact absurd hreason hother
      · rw [Run.isExhausted, Option.any_eq_true] at hexhausted
        obtain ⟨limit, hlimit, hle⟩ := hexhausted
        exact ⟨hcubic, ⟨limit, hlimit, of_decide_eq_true hle⟩, _, bracket, hround⟩

/-! ## Two limits on trials -/

/-- The failed line search on record, if there is one: its step and the reason. -/
def failedSearch? (o : Optimizer α n) : Option (α × String) :=
  match o.failure? with
  | some (.searchFailed step text) => some (step, text)
  | _ => none

/-- The trial that a run waits for, if there is one, and its state. -/
def trial? (o : Optimizer α n) : Option (Solver α n × Trial α n) :=
  match o.body with
  | .ok s =>
    match s.phase with
    | .searching trial => some (s, trial)
    | _ => none
  | .error _ => none

/-- A run that waits for a trial. -/
theorem phase_of_trial? {o : Optimizer α n} {s : Solver α n} {trial : Trial α n}
    (h : o.trial? = some (s, trial)) : o.body = .ok s ∧ s.phase = .searching trial := by
  unfold trial? at h
  split at h
  · next hbody =>
    split at h
    · next hphase =>
      cases h
      exact ⟨hbody, hphase⟩
    · cases h
  · cases h

/-- A failed line search that an answer leaves on record, where a check finds one. -/
theorem exists_failedSearch (check : Optimizer α n → Array α → α → String → Bool)
    {states : List (Optimizer α n × Array α)} {f : α} {g : Array α}
    (h : states.any (fun (o, x) => o.task == .computeFG &&
      (o.iterate x f g).toOption.any fun (o', _) => o'.task == .error &&
        o'.failedSearch?.any fun (step, text) => check o x step text) = true) :
    ∃ o x o' x' step text, (o, x) ∈ states ∧ o.task = .computeFG ∧
      o.iterate x f g = .ok (o', x') ∧ o'.task = .error ∧
      o'.failure? = some (.searchFailed step text) ∧ check o x step text = true := by
  obtain ⟨⟨o, x⟩, hmem, hanswer⟩ := List.any_eq_true.mp h
  obtain ⟨htask, hanswer⟩ := (Bool.and_eq_true _ _).mp hanswer
  obtain ⟨⟨o', x'⟩, hcall, hanswer⟩ := exists_ok_of_any hanswer
  obtain ⟨herror, hfailed⟩ := (Bool.and_eq_true _ _).mp hanswer
  obtain ⟨⟨step, text⟩, hfailed, hcheck⟩ := (Option.any_eq_true _ _).mp hfailed
  unfold failedSearch? at hfailed
  split at hfailed
  · next hfailure =>
    cases hfailed
    exact ⟨o, x, o', x', _, _, hmem, beq_iff_eq.mp htask, hcall, beq_iff_eq.mp herror,
      hfailure, hcheck⟩
  · cases hfailed

/-- Settings that allow for a single trial. -/
def singleTrial (kind : SearchKind) : Config Float :=
  { lineSearch := kind, maxTrials := some 1 }

/-- Two answers after which the run waits for a trial. -/
def beforeTrial : List (Float × Array Float) := [(1, #[1]), (1, #[1])]

/-- A search that backtracks and is out of trials names the step evaluated last. -/
theorem spent_backtracks_named : ∃ (o o' : Optimizer Float 1) (x x' : Array Float)
    (s₀ s : Solver Float 1) (trial : Trial Float 1) (step : Float),
    begin? #v[1] (singleTrial .armijo) {} = .ok s₀ ∧
      o.iterate x 1 #[1] = .ok (o', x') ∧
      o'.failure? = some (.searchFailed step StopReason.tooManyBacktracks.text) ∧
      o.body = .ok s ∧ s.phase = .searching trial ∧
      x = (Solver.trialPoint s₀.box trial.base trial.direction step).toArray := by
  have hbegin : (begin? #v[1] (singleTrial .armijo) {}).toOption.any
      (fun _ : Solver Float 1 => true) = true := by
    decide +kernel
  obtain ⟨s₀, h, -⟩ := exists_of_any_begin? hbegin
  have hany : ((start #v[1] (singleTrial .armijo) {}, #[1]) ::
      (start #v[1] (singleTrial .armijo) {}).course #[1] beforeTrial).any (fun (o, x) =>
        o.task == .computeFG && (o.iterate x 1 #[1]).toOption.any fun (o', _) =>
          o'.task == .error && o'.failedSearch?.any fun (_, text) =>
            text == StopReason.tooManyBacktracks.text) = true := by
    decide +kernel
  obtain ⟨o, x, o', x', step, text, hmem, htask, hcall, -, hfailure, htext⟩ :=
    exists_failedSearch (fun _ _ _ text => text == StopReason.tooManyBacktracks.text) hany
  obtain ⟨s, trial, reason, hbody, hphase, hpoint, hreason, hnamed, -⟩ :=
    names_failing_step h beforeTrial hmem htask hcall hfailure
  rw [beq_iff_eq] at htext
  have hbacktracks : reason = .tooManyBacktracks :=
    StopReason.text_injective (hreason.symm.trans htext)
  have hstep : step = trial.run.step := hnamed (by rw [hbacktracks]; decide)
  rw [htext] at hfailure
  rw [← hstep] at hpoint
  exact ⟨o, o', x, x', s₀, s, trial, step, h, hcall, hfailure, hbody, hphase, hpoint⟩

/-- **A step that nobody evaluates.**  A search that brackets and is out of trials names a step
beyond that of the trial, and the point that was evaluated is not the one that belongs to it. -/
theorem spent_trials_misnamed : ∃ (o o' : Optimizer Float 1) (x x' : Array Float)
    (s : Solver Float 1) (trial : Trial Float 1) (step : Float),
    (o, x) ∈ (start #v[1] (singleTrial .cubic) {}).course #[1] beforeTrial ∧
      o.iterate x 0.9 #[1] = .ok (o', x') ∧ o'.task = .error ∧
      o'.failure? = some (.searchFailed step StopReason.tooManyTrials.text) ∧
      o.body = .ok s ∧ s.phase = .searching trial ∧ trial.run.step < step ∧
      x ≠ (Solver.trialPoint s.box trial.base trial.direction step).toArray := by
  -- the point of the step on record lies below the one evaluated
  let check (o : Optimizer Float 1) (x : Array Float) (step : Float) (text : String) : Bool :=
    text == StopReason.tooManyTrials.text && o.trial?.any fun (s, trial) =>
      decide (trial.run.step < step) && x[0]?.any fun v =>
        decide ((Solver.trialPoint s.box trial.base trial.direction step)[0] < v)
  have hany : ((start #v[1] (singleTrial .cubic) {}).course #[1] beforeTrial).any (fun (o, x) =>
      o.task == .computeFG && (o.iterate x 0.9 #[1]).toOption.any fun (o', _) =>
        o'.task == .error && o'.failedSearch?.any fun (step, text) => check o x step text) =
      true := by
    decide +kernel
  obtain ⟨o, x, o', x', step, text, hmem, -, hcall, herror, hfailure, hcheck⟩ :=
    exists_failedSearch check hany
  obtain ⟨htext, hcheck⟩ := (Bool.and_eq_true _ _).mp hcheck
  obtain ⟨⟨s, trial⟩, htrial, hcheck⟩ := (Option.any_eq_true _ _).mp hcheck
  obtain ⟨hbeyond, hbelow⟩ := (Bool.and_eq_true _ _).mp hcheck
  obtain ⟨v, hv, hbelow⟩ := (Option.any_eq_true _ _).mp hbelow
  obtain ⟨hbody, hphase⟩ := phase_of_trial? htrial
  rw [beq_iff_eq.mp htext] at hfailure
  refine ⟨o, o', x, x', s, trial, step, hmem, hcall, herror, hfailure, hbody, hphase,
    of_decide_eq_true hbeyond, ?_⟩
  rintro rfl
  rw [Vector.getElem?_toArray, Vector.getElem?_eq_getElem Nat.zero_lt_one] at hv
  cases hv
  exact OrderedScalar.not_lt_self (of_decide_eq_true hbelow)

end Optimizer

end Descent
