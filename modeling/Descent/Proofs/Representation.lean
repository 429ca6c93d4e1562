/-
# Machines and optimizers

The task machine and the optimizer are the same minimizer: what a caller sees of the one
it sees of the other, whatever calls are made.  The fields of the machine that could
contradict one another never do.

* `Workspace.Holds` : the workspace holds what a run keeps;
* `Machine.Shows` : the fields of the machine show the run;
* `Machine.Follows` : a call has led both to the same place;
* `Machine.follows_advance` : every call does;
* `Machine.Represents` : the relation between machines and optimizers;
* `Machine.Represents.iterate` : exchanges keep it.
-/
import Descent.Optimizer.Machine
import Descent.Proofs.Bracketing
import Descent.Proofs.Failures

namespace Descent

open Scalar

variable {α : Type} [Scalar α] {n : Nat}

/-! ## Answers -/

/-- An answer without a flaw passes the check. -/
theorem checkAnswer_of_flaw?_eq_none {f : α} {g : Vector α n} (h : flaw? f g = none) :
    Machine.checkAnswer f g = .ok () := by
  have hvalue : checkValue f = .ok () := by
    rw [checkValue, if_pos (isFinite_value_of_flaw? h)]
  have hgradient : checkFiniteGradient g.toArray = .ok () := by
    have hpass : firstFailing? isFinite g.toArray.toList = none := by
      refine firstFailing?_of_forall ?_
      intro v hv
      obtain ⟨i, hi, rfl⟩ := List.getElem_of_mem hv
      simpa using isFinite_gradient_of_flaw? h i (by simpa using hi)
    rw [checkFiniteGradient, hpass]
  unfold Machine.checkAnswer checkGradient checkDimension
  rw [hvalue, hgradient, g.size_toArray, if_pos rfl]
  rfl

/-- A flaw is what the check of the answer reports. -/
theorem checkAnswer_of_flaw?_eq_some {f : α} {g : Vector α n} {v : Verdict α}
    (h : flaw? f g = some v) (c : Config α) :
    ∃ e, Machine.checkAnswer f g = .error e ∧ v.failure? c = some e := by
  have hcheck : Machine.checkAnswer f g =
      (do checkValue f; checkFiniteGradient g.toArray : Except (Failure α) Unit) := by
    unfold Machine.checkAnswer checkGradient checkDimension
    rw [g.size_toArray, if_pos rfl]
    rfl
  have hfailure := failure?_flaw? c f g
  rw [h, Option.bind_some] at hfailure
  rw [hcheck]
  cases hvalue : checkValue f with
  | error e =>
    rw [hvalue] at hfailure
    exact ⟨e, rfl, hfailure⟩
  | ok u =>
    rw [hvalue] at hfailure
    cases hgradient : checkFiniteGradient g.toArray with
    | error e =>
      rw [hgradient] at hfailure
      exact ⟨e, rfl, hfailure⟩
    | ok u' =>
      -- an answer that passes both checks has no flaw
      rw [hgradient] at hfailure
      obtain ⟨e, he⟩ := v.exists_failure? (task_of_flaw? h) c
      rw [hfailure] at he
      cases he

/-! ## What a workspace holds -/

namespace Workspace

/-- The workspace holds what goes with a phase. -/
def HoldsPhase (w : Workspace α n) : Phase α n → Prop
  | .opening => w.stage = .initial
  | .searching trial =>
    w.stage = .search ∧ w.base = trial.base ∧ w.direction = trial.direction ∧
      w.firstHit = trial.firstHit ∧ w.slope = trial.run.frame.slope ∧
      w.search.state = .running trial.run
  | .accepted p =>
    w.stage = .accepted ∧ w.base = p ∧ w.effective = w.box.effectiveGradient p.x p.g
  | .stopped none _ => w.stage = .initial
  | .stopped (some p) _ => w.stage ≠ .initial ∧ w.base = p

/-- The workspace keeps what a run carries from phase to phase. -/
structure Keeps (c : Config α) (w : Workspace α n) (s : Solver α n) : Prop where
  box : w.box = s.box
  config : w.search.config = c
  recent : w.search.recent = s.recent
  last : w.last = s.last
  engine : w.engine = s.engine
  openingNorm : w.openingNorm = s.openingNorm

/-- The workspace holds everything that a run needs. -/
structure Holds (c : Config α) (w : Workspace α n) (s : Solver α n) : Prop extends
    w.Keeps c s where
  phase : w.HoldsPhase s.phase

/-- The workspace after a point has been accepted, whatever the tests there say. -/
theorem holdsPhase_settle {c : Config α} {w : Workspace α n} {p : Point α n}
    (hstage : w.stage = .accepted) (hbase : w.base = p)
    (heffective : w.effective = w.box.effectiveGradient p.x p.g) (s : Solver α n)
    (remark : Option StopReason) : w.HoldsPhase (Solver.heed remark (s.settle c p)) := by
  rcases s.heed_settle_cases c p remark with ⟨verdict, h⟩ | ⟨h, -⟩
  · rw [h]
    refine ⟨?_, hbase⟩
    rw [hstage]
    decide
  · rw [h]
    exact ⟨hstage, hbase, heffective⟩

theorem Keeps.rephase {c : Config α} {w : Workspace α n} {s : Solver α n} (hw : w.Keeps c s)
    (phase : Phase α n) : w.Keeps c { s with phase } :=
  ⟨hw.box, hw.config, hw.recent, hw.last, hw.engine, hw.openingNorm⟩

/-- A workspace that takes up a step keeps what the run does. -/
theorem Keeps.recordStep {c : Config α} {w : Workspace α n} {s : Solver α n} (hw : w.Keeps c s)
    {trial : Trial α n} (hbase : w.base = trial.base) (hfirstHit : w.firstHit = trial.firstHit)
    (hslope : w.slope = trial.run.frame.slope) (hstep : w.search.step = trial.run.step)
    (p : Point α n) : (w.recordStep c p).Keeps c (s.takeStep c trial p) where
  box := hw.box
  config := hw.config
  recent := by
    show remember w.search.config p.f w.search.recent = remember c p.f s.recent
    rw [hw.config, hw.recent]
  last := by
    show some _ = some _
    rw [hstep, hslope, hbase]
  engine := by
    have hengine := hw.engine
    simp only [Workspace.recordStep, Solver.takeStep, hbase, hfirstHit, hstep]
    cases hkind : s.engine with
    | conjugate last =>
      rw [hkind] at hengine
      rw [hengine]
      rfl
    | metric pairs =>
      rw [hkind] at hengine
      rw [hengine]
      rfl
  openingNorm := hw.openingNorm

/-- A run that stops keeps the point where its search began. -/
theorem Holds.stop {c : Config α} {w : Workspace α n} {s : Solver α n} (hw : w.Holds c s)
    {trial : Trial α n} (hphase : s.phase = .searching trial) (search : LineSearch α)
    (hconfig : search.config = c) (hrecent : search.recent = s.recent) (evaluations : Nat)
    (verdict : Verdict α) :
    ({ w with search } : Workspace α n).Holds c
      { s with evaluations, phase := .stopped (some trial.base) verdict } := by
  have hholds := hw.phase
  rw [hphase] at hholds
  obtain ⟨hstage, hbase, -⟩ := hholds
  refine ⟨⟨hw.box, hconfig, hrecent, hw.last, hw.engine, hw.openingNorm⟩, ?_, hbase⟩
  rw [hstage]
  decide

/-- The line search of a workspace answers what the run of the trial does. -/
theorem Holds.iterate {c : Config α} {w : Workspace α n} {s : Solver α n} (hw : w.Holds c s)
    {trial : Trial α n} (hphase : s.phase = .searching trial) (x : Vector α n) (f : α)
    (g : Vector α n) :
    w.search.iterate f (Solver.trialSlope w.base x g w.search.step) =
      w.search.take trial.run
        (trial.run.answer c f (Solver.trialSlope trial.base x g trial.run.step)) := by
  have hholds := hw.phase
  rw [hphase] at hholds
  obtain ⟨-, hbase, -, -, -, hstate⟩ := hholds
  have hstep : w.search.step = trial.run.step := by rw [LineSearch.step, hstate]
  rw [LineSearch.iterate_of_running hstate, hw.config, hbase, hstep]

/-- The point that the workspace keeps. -/
theorem HoldsPhase.accepted?_eq {w : Workspace α n} {phase : Phase α n} (h : w.HoldsPhase phase) :
    (if w.stage = .initial then none else some w.base) = phase.accepted? := by
  cases phase with
  | opening =>
    have hstage : w.stage = .initial := h
    rw [hstage]
    rfl
  | searching trial =>
    obtain ⟨hstage, hbase, -⟩ := h
    rw [hstage, hbase]
    rfl
  | accepted p =>
    obtain ⟨hstage, hbase, -⟩ := h
    rw [hstage, hbase]
    rfl
  | stopped last verdict =>
    cases last with
    | none =>
      have hstage : w.stage = .initial := h
      rw [hstage]
      rfl
    | some p =>
      obtain ⟨hstage, hbase⟩ := h
      rw [if_neg hstage, hbase]
      rfl

end Workspace

/-! ## What a machine shows -/

namespace Machine

/-- The counters of an open machine are those of a run. -/
structure Counts (c : Config α) (m : Machine α n) (s : Solver α n) : Prop where
  config : m.config = c
  isOpen : m.closed = false
  iterations : m.iterations = s.iterations
  evaluations : m.evaluations = s.evaluations
  restarts : m.restarts = s.restarts
  step : m.step = s.step

/-- The fields of an open machine show a run. -/
structure Shows (c : Config α) (m : Machine α n) (s : Solver α n) : Prop extends
    m.Counts c s where
  task : m.task = s.task
  status : m.status = s.status
  failure : m.failure? = s.failure? c
  norm : m.norm? = s.gradientNorm?

/-- A call has led machine and run to the same place. -/
structure Follows (c : Config α) (left : Machine α n × Workspace α n × Vector α n)
    (right : Solver α n × Vector α n) : Prop where
  shows_run : left.1.Shows c right.1
  holds : left.2.1.Holds c right.1
  point : left.2.2 = right.2

variable {c : Config α} {m : Machine α n} {w : Workspace α n} {s : Solver α n}
  {x : Vector α n} {f : α} {g : Vector α n}

/-- A run that goes on has no failure on record. -/
theorem Shows.failure?_eq_none (hm : m.Shows c s) (h : s.task.isTerminal = false) :
    m.failure? = none := by
  rw [hm.failure, Solver.failure?]
  cases hphase : s.phase with
  | stopped last verdict =>
    rw [Solver.isTerminal_of_stopped hphase] at h
    cases h
  | _ => rfl

theorem Counts.rephase (hm : m.Counts c s) (task : Task) (status : Status)
    (failure? : Option (Failure α)) (phase : Phase α n) :
    ({ m with task, status, failure? } : Machine α n).Counts c { s with phase } :=
  ⟨hm.config, hm.isOpen, hm.iterations, hm.evaluations, hm.restarts, hm.step⟩

theorem Counts.evaluate (hm : m.Counts c s) :
    ({ m with evaluations := m.evaluations + 1 } : Machine α n).Counts c
      { s with evaluations := s.evaluations + 1 } :=
  ⟨hm.config, hm.isOpen, hm.iterations, congrArg (· + 1) hm.evaluations, hm.restarts, hm.step⟩

/-- A machine that asks for something shows a phase that does. -/
theorem Counts.set (hm : m.Counts c s) (hclean : m.failure? = none) (phase : Phase α n)
    (hphase : phase.verdict? = none)
    (hnorm : m.norm? = ({ s with phase } : Solver α n).gradientNorm?) :
    (m.set phase.task .success).Shows c { s with phase } where
  toCounts := hm.rephase _ _ _ _
  task := rfl
  status := by
    cases phase with
    | stopped last verdict => cases hphase
    | _ => rfl
  failure := by
    show m.failure? = phase.verdict?.bind _
    rw [hclean, hphase]
    rfl
  norm := hnorm

theorem Counts.fail (hm : m.Counts c s) (last : Option (Point α n)) (verdict : Verdict α)
    {e : Failure α} (htask : verdict.task = .error) (he : verdict.failure? c = some e)
    (hnorm : m.norm? = last.map fun _ => s.norm) :
    (m.fail verdict.status e).Shows c { s with phase := .stopped last verdict } where
  toCounts := hm.rephase _ _ _ _
  task := htask.symm
  status := rfl
  failure := he.symm
  norm := hnorm

/-- A machine whose evaluations are spent shows a run that has stopped for this. -/
theorem Counts.exhaust (hm : m.Counts c s) (last : Option (Point α n))
    (hnorm : m.norm? = last.map fun _ => s.norm) :
    (m.exhaust .tooManyEvaluations).Shows c
      { s with phase := .stopped last .evaluationsSpent } where
  toCounts := hm.rephase _ _ _ _
  task := rfl
  status := rfl
  failure := by
    show some (Failure.budgetExceeded "evaluations" m.config.maxEvaluations) = _
    rw [hm.config]
    rfl
  norm := hnorm

/-- The tests at an accepted point. -/
theorem Counts.settle (hm : m.Counts c s) (hclean : m.failure? = none)
    (hnorm : m.norm? = some s.norm) (hopening : w.openingNorm = s.openingNorm) (p : Point α n) :
    (m.settle w).Shows c { s with phase := s.settle c p } := by
  unfold Machine.settle Solver.settle Solver.threshold
  rw [hm.config, hm.iterations, hnorm, Option.getD_some, hopening]
  by_cases hsmall : s.norm ≤ larger c.gatol (c.grtol * s.openingNorm)
  · rw [if_pos hsmall, if_pos hsmall]
    exact ⟨hm.rephase _ _ _ _, rfl, rfl, hclean, hnorm⟩
  · rw [if_neg hsmall, if_neg hsmall]
    by_cases hspent : c.maxIterations ≤ s.iterations
    · rw [if_pos hspent, if_pos hspent]
      refine ⟨hm.rephase _ _ _ _, rfl, rfl, ?_, hnorm⟩
      show some (Failure.budgetExceeded "iterations" m.config.maxIterations) = _
      rw [hm.config]
      rfl
    · rw [if_neg hspent, if_neg hspent]
      exact ⟨hm.rephase _ _ _ _, rfl, rfl, hclean, hnorm⟩

/-- Rounding errors end the run at a new point that does not end it already. -/
theorem Shows.heed {p : Point α n} (hm : m.Shows c { s with phase := s.settle c p })
    {search : LineSearch α} {remark : StopReason} (hreason : search.reason? = some remark) :
    (if m.task = .newX ∧ search.hitRoundingErrors then m.set .warning .roundingErrors else m).Shows
      c { s with phase := Solver.heed (some remark) (s.settle c p) } := by
  have hhit : search.hitRoundingErrors = true ↔ remark = .roundingErrors := by
    rw [LineSearch.hitRoundingErrors, hreason]
    simp
  have htask : m.task = (s.settle c p).task := hm.task
  by_cases hrounding : remark = .roundingErrors
  · subst hrounding
    rcases s.settle_cases c p with ⟨verdict, h⟩ | ⟨h, -⟩
    · have hnot : m.task ≠ .newX := by
        rw [htask, h]
        intro hnew
        have hterm := verdict.isTerminal_task
        rw [show verdict.task = .newX from hnew] at hterm
        cases hterm
      rw [if_neg (fun hboth => hnot hboth.1)]
      rw [h] at hm ⊢
      exact hm
    · rw [h] at hm htask ⊢
      rw [if_pos ⟨htask, hhit.mpr rfl⟩]
      exact ⟨hm.toCounts.rephase _ _ _ _, rfl, rfl, hm.failure, hm.norm⟩
  · rw [if_neg (fun hboth => hrounding (hhit.mp hboth.2))]
    have hsame : Solver.heed (some remark) (s.settle c p) = s.settle c p := by
      cases remark with
      | roundingErrors => exact absurd rfl hrounding
      | _ => rfl
    rw [hsame]
    exact hm

/-! ## A value and a gradient arrive -/

/-- An answer at the first point. -/
theorem follows_answerInitial (hm : m.Shows c s) (hw : w.Holds c s) (hphase : s.phase = .opening)
    (x : Vector α n) (f : α) (g : Vector α n) :
    Follows c (m.answerInitial w x f g) (s.answerOpening c x f g) := by
  have hrunning : s.task.isTerminal = false := by
    rw [Solver.task_of_opening hphase]
    rfl
  have hclean := hm.failure?_eq_none hrunning
  have hcounts := hm.toCounts.evaluate
  unfold answerInitial Solver.answerOpening
  rw [hw.box]
  cases hx : s.box.contains x with
  | false =>
    -- the point is moved, and the same is asked for again
    refine ⟨⟨hm.toCounts.rephase _ _ _ s.phase, ?_, ?_, hm.failure, hm.norm⟩, hw, rfl⟩
    · exact (Solver.task_of_opening hphase).symm
    · show Status.success = s.phase.status
      rw [hphase]
      rfl
  | true =>
    cases hflaw : flaw? f g with
    | some flaw =>
      obtain ⟨e, hcheck, he⟩ := checkAnswer_of_flaw?_eq_some hflaw c
      simp only [Bool.not_true, Bool.false_eq_true, if_false, hcheck]
      have hnorm : m.norm? = none := by
        rw [hm.norm, Solver.gradientNorm?, Solver.accepted?_of_opening hphase]
        rfl
      refine ⟨?_, ?_, rfl⟩
      · have hfail := hcounts.fail none flaw (task_of_flaw? hflaw) he hnorm
        rw [status_of_flaw? hflaw] at hfail
        exact hfail
      · have hstage : w.stage = .initial := by
          have hholds := hw.phase
          rw [hphase] at hholds
          exact hholds
        exact ⟨⟨hw.box, hw.config, hw.recent, hw.last, hw.engine, hw.openingNorm⟩, hstage⟩
    | none =>
      simp only [Bool.not_true, Bool.false_eq_true, if_false, checkAnswer_of_flaw?_eq_none hflaw]
      have htaken : ({ m with
          evaluations := m.evaluations + 1
          norm? := some (s.box.effectiveNorm x g) } : Machine α n).Counts c
            (s.takeFirst c ⟨x, f, g⟩) :=
        ⟨hm.config, hm.isOpen, hm.iterations, congrArg (· + 1) hm.evaluations, hm.restarts, hm.step⟩
      refine ⟨?_, ?_, rfl⟩
      · exact htaken.settle hclean rfl rfl ⟨x, f, g⟩
      · refine ⟨⟨hw.box, hw.config, ?_, hw.last, hw.engine, rfl⟩, ?_⟩
        · show remember w.search.config f w.search.recent = remember c f s.recent
          rw [hw.config, hw.recent]
        · exact Workspace.holdsPhase_settle rfl rfl rfl _ none

/-- The norm that a machine shows during a line search. -/
theorem Shows.norm?_of_searching (hm : m.Shows c s) {trial : Trial α n}
    (hphase : s.phase = .searching trial) : m.norm? = some s.norm := by
  rw [hm.norm, Solver.gradientNorm?, Solver.accepted?_of_searching hphase]
  rfl

/-- A machine has no failure on record during a line search. -/
theorem Shows.failure?_of_searching (hm : m.Shows c s) {trial : Trial α n}
    (hphase : s.phase = .searching trial) : m.failure? = none := by
  refine hm.failure?_eq_none ?_
  rw [Solver.task_of_searching hphase]
  rfl

/-- The line search goes on: the next trial follows, if an evaluation is left. -/
theorem follows_answerSearch_of_next (hm : m.Shows c s) (hw : w.Holds c s) {trial : Trial α n}
    (hphase : s.phase = .searching trial) (x : Vector α n) {f : α} {g : Vector α n}
    (hflaw : flaw? f g = none) {run : Run α}
    (hanswer : trial.run.answer c f (Solver.trialSlope trial.base x g trial.run.step) =
      .next run) :
    Follows c (m.answerSearch w x f g) (s.answerTrial c trial x f g) := by
  obtain rfl : m.config = c := hm.config
  have hnorm := hm.norm?_of_searching hphase
  have hholds := hw.phase
  rw [hphase] at hholds
  obtain ⟨hstage, hbase, hdirection, hfirstHit, hslope, -⟩ := hholds
  have hframe := (Run.kept_of_next hanswer).1
  unfold answerSearch Solver.answerTrial
  simp only [checkAnswer_of_flaw?_eq_none hflaw, hflaw, hw.iterate hphase, hanswer,
    LineSearch.take, LineSearch.status]
  by_cases hspent : m.config.maxEvaluations ≤ s.evaluations + 1
  · rw [if_pos (by rw [hm.evaluations]; exact hspent), if_pos hspent]
    exact ⟨hm.toCounts.evaluate.exhaust (some trial.base) hnorm,
      hw.stop hphase { w.search with state := .running run } hw.config hw.recent _ _,
      congrArg Point.x hbase⟩
  · rw [if_neg (by rw [hm.evaluations]; exact hspent), if_neg hspent]
    refine ⟨?_, ?_, ?_⟩
    · have hset := hm.toCounts.evaluate.set (hm.failure?_of_searching hphase)
        (.searching { trial with run }) rfl hnorm
      exact hset
    · refine ⟨⟨hw.box, hw.config, hw.recent, hw.last, hw.engine, hw.openingNorm⟩, hstage, hbase,
        hdirection, hfirstHit, ?_, rfl⟩
      rw [hslope, hframe]
    · show Solver.trialPoint w.box w.base w.direction run.step = _
      rw [hw.box, hbase, hdirection]

/-- A machine that takes up a point shows a run that does. -/
theorem Shows.accept (hm : m.Shows m.config s) {trial : Trial α n}
    (hphase : s.phase = .searching trial) (hw : w.Keeps m.config s)
    (hstep : w.search.step = trial.run.step) (p : Point α n) :
    let taken := ({ m with evaluations := m.evaluations + 1 } : Machine α n).accept w p
    (taken.1.settle taken.2).Shows m.config
      { s.takeStep m.config trial p with
        phase := (s.takeStep m.config trial p).settle m.config p } := by
  have hcounts : (({ m with evaluations := m.evaluations + 1 } : Machine α n).accept w p).1.Counts
      m.config (s.takeStep m.config trial p) :=
    ⟨rfl, hm.isOpen, congrArg (· + 1) hm.iterations, congrArg (· + 1) hm.evaluations,
      hm.restarts, hstep⟩
  refine hcounts.settle (hm.failure?_of_searching hphase) ?_ hw.openingNorm p
  show some (w.box.effectiveNorm p.x p.g) = _
  rw [hw.box]
  rfl

/-- The line search accepts its step. -/
theorem follows_answerSearch_of_accepted (hm : m.Shows c s) (hw : w.Holds c s)
    {trial : Trial α n} (hphase : s.phase = .searching trial) (x : Vector α n) {f : α}
    {g : Vector α n} (hflaw : flaw? f g = none) {remark : Option StopReason}
    (hanswer : trial.run.answer c f (Solver.trialSlope trial.base x g trial.run.step) =
      .accepted remark) :
    Follows c (m.answerSearch w x f g) (s.answerTrial c trial x f g) := by
  obtain rfl : m.config = c := hm.config
  have hholds := hw.phase
  rw [hphase] at hholds
  obtain ⟨-, hbase, -, hfirstHit, hslope, -⟩ := hholds
  have hkept (ending : Ending) : ({ w with
      search := { w.search with state := .ended trial.run.step ending } } :
        Workspace α n).Keeps m.config s :=
    ⟨hw.box, hw.config, hw.recent, hw.last, hw.engine, hw.openingNorm⟩
  have hrecorded (ending : Ending) :=
    (hkept ending).recordStep hbase hfirstHit hslope rfl ⟨x, f, g⟩
  unfold answerSearch Solver.answerTrial
  cases remark with
  | none =>
    simp only [checkAnswer_of_flaw?_eq_none hflaw, hflaw, hw.iterate hphase, hanswer,
      LineSearch.take, LineSearch.status]
    exact ⟨hm.accept hphase (hkept .converged) rfl ⟨x, f, g⟩,
      ⟨(hrecorded .converged).rephase _, Workspace.holdsPhase_settle rfl rfl rfl _ none⟩, rfl⟩
  | some reason =>
    simp only [checkAnswer_of_flaw?_eq_none hflaw, hflaw, hw.iterate hphase, hanswer,
      LineSearch.take, LineSearch.status]
    refine ⟨Shows.heed (hm.accept hphase (hkept (.warning reason)) rfl ⟨x, f, g⟩) rfl,
      ⟨(hrecorded (.warning reason)).rephase _, ?_⟩, rfl⟩
    exact Workspace.holdsPhase_settle rfl rfl rfl _ (some reason)

/-- The line search fails. -/
theorem follows_answerSearch_of_failed (hm : m.Shows c s) (hw : w.Holds c s)
    {trial : Trial α n} (hphase : s.phase = .searching trial) (x : Vector α n) {f : α}
    {g : Vector α n} (hflaw : flaw? f g = none) {step : α} {reason : StopReason}
    (hanswer : trial.run.answer c f (Solver.trialSlope trial.base x g trial.run.step) =
      .failed step reason) :
    Follows c (m.answerSearch w x f g) (s.answerTrial c trial x f g) := by
  have hholds := hw.phase
  rw [hphase] at hholds
  obtain ⟨-, hbase, -⟩ := hholds
  have hstatus : (Verdict.searchFailed step reason).status =
      if LineSearch.hitRoundingErrors { w.search with state := .ended step (.failure reason) }
      then .roundingErrors else .lineSearchFailure := by
    cases reason <;> rfl
  unfold answerSearch Solver.answerTrial
  simp only [checkAnswer_of_flaw?_eq_none hflaw, hflaw, hw.iterate hphase, hanswer,
    LineSearch.take, LineSearch.status]
  refine ⟨?_, ?_, congrArg Point.x hbase⟩
  · rw [← hstatus]
    exact hm.toCounts.evaluate.fail (some trial.base) (.searchFailed step reason) rfl rfl
      (hm.norm?_of_searching hphase)
  · exact hw.stop hphase { w.search with state := .ended step (.failure reason) } hw.config
      hw.recent _ _

/-- An answer at a trial point. -/
theorem follows_answerSearch (hm : m.Shows c s) (hw : w.Holds c s) {trial : Trial α n}
    (hphase : s.phase = .searching trial) (x : Vector α n) (f : α) (g : Vector α n) :
    Follows c (m.answerSearch w x f g) (s.answerTrial c trial x f g) := by
  cases hflaw : flaw? f g with
  | some flaw =>
    obtain ⟨e, hcheck, he⟩ := checkAnswer_of_flaw?_eq_some hflaw c
    have hholds := hw.phase
    rw [hphase] at hholds
    obtain ⟨-, hbase, -⟩ := hholds
    unfold answerSearch Solver.answerTrial
    simp only [hcheck, hflaw]
    refine ⟨?_, hw.stop hphase w.search hw.config hw.recent _ _, congrArg Point.x hbase⟩
    have hfail := hm.toCounts.evaluate.fail (some trial.base) flaw (task_of_flaw? hflaw) he
      (hm.norm?_of_searching hphase)
    rw [status_of_flaw? hflaw] at hfail
    exact hfail
  | none =>
    cases hanswer : trial.run.answer c f (Solver.trialSlope trial.base x g trial.run.step) with
    | next run => exact follows_answerSearch_of_next hm hw hphase x hflaw hanswer
    | accepted remark => exact follows_answerSearch_of_accepted hm hw hphase x hflaw hanswer
    | failed step reason => exact follows_answerSearch_of_failed hm hw hphase x hflaw hanswer

end Machine

/-! ## Leaving an accepted point -/

/-- A line search starts with the slope that it is told. -/
theorem Run.slope_of_start {c : Config α} {recent : List α} {value slope step minStep maxStep : α}
    {run : Run α} (h : start c recent value slope step minStep maxStep = .ok run) :
    run.frame.slope = slope := by
  unfold start at h
  split at h
  · cases h
  · split at h
    · cases h
    · cases h
      rfl

theorem LineSearch.start_eq (search : LineSearch α) (value slope step minStep maxStep : α) :
    search.start value slope step minStep maxStep =
      (Run.start search.config search.recent value slope step minStep maxStep).map
        fun run => { search with state := .running run } := by
  unfold start
  cases Run.start search.config search.recent value slope step minStep maxStep with
  | error refusal => rfl
  | ok run => rfl

namespace Solver

/-- Where a slope does not descend, a run stops. -/
theorem depart_of_not_descent {c : Config α} {s : Solver α n} {p : Point α n} {h : Heading α n}
    (hheading : s.heading c p = h) (hslope : ¬ h.slope < 0) :
    s.depart c p = ({ s.turn h with phase := .stopped (some p) (.notDescent h.slope) }, p.x) := by
  unfold depart
  dsimp only
  rw [hheading, if_pos hslope]
  rfl

/-- Where a slope descends and an evaluation is left, a run departs as its line search
starts. -/
theorem depart_of_descent {c : Config α} {s : Solver α n} {p : Point α n} {h : Heading α n}
    (hheading : s.heading c p = h) (hslope : h.slope < 0)
    (hleft : ¬ c.maxEvaluations ≤ s.evaluations) :
    s.depart c p =
      let range := (s.turn h).stepRange c p h
      match Run.start c s.recent p.f h.slope range.first range.least range.greatest with
      | .error refusal =>
        ({ s.turn h with phase := .stopped (some p) (.ofRefusal refusal) }, p.x)
      | .ok run =>
        ({ s.turn h with
            phase := .searching
              { base := p, direction := h.direction, firstHit := range.firstHit, run } },
          trialPoint s.box p h.direction run.step) := by
  unfold depart
  dsimp only
  rw [hheading, if_neg (not_not.mpr hslope), if_neg hleft]
  rfl

end Solver

namespace Workspace

variable {c : Config α} {w : Workspace α n} {s : Solver α n} {p : Point α n}

/-- A workspace with the direction of a heading considers the same steps as the run. -/
theorem stepRange_eq {h : Solver.Heading α n} (hw : w.Keeps c (s.turn h)) (hbase : w.base = p)
    (hdirection : w.direction = h.direction) (hlength : h.length = norm2 h.direction) :
    w.stepRange c h.slope = (s.turn h).stepRange c p h := by
  have hengine : w.engine = h.engine := hw.engine
  have hlast : w.last = (s.turn h).last := hw.last
  unfold stepRange Solver.stepRange
  rw [hw.box, hlast, hengine, hbase, hdirection]
  -- what is left differs in how the length of the direction is written
  exact hlength ▸ rfl

end Workspace

namespace Machine

variable {c : Config α} {m : Machine α n} {w : Workspace α n} {s : Solver α n} {p : Point α n}

/-- Machine and run begin the same line search. -/
theorem follows_beginSearch {h : Solver.Heading α n} (hheading : s.heading c p = h)
    (hm : m.Counts c (s.turn h)) (hclean : m.failure? = none) (hnorm : m.norm? = some s.norm)
    (hw : w.Keeps c (s.turn h)) (hstage : w.stage = .accepted) (hbase : w.base = p)
    (hdirection : w.direction = h.direction) (hslope : h.slope < 0) :
    Follows c (m.beginSearch w h.slope) (s.depart c p) := by
  obtain rfl : m.config = c := hm.config
  have hlength : h.length = norm2 h.direction := by
    rw [← hheading]
    exact (s.heading_spec m.config p).2
  have hrange := Workspace.stepRange_eq hw hbase hdirection hlength
  have hkeeps (firstHit : Option α) (verdict : Verdict α) :
      ({ w with firstHit } : Workspace α n).Holds m.config
        { s.turn h with phase := .stopped (some p) verdict } := by
    refine ⟨⟨hw.box, hw.config, hw.recent, hw.last, hw.engine, hw.openingNorm⟩, ?_, hbase⟩
    rw [hstage]
    decide
  by_cases hspent : m.config.maxEvaluations ≤ s.evaluations
  · unfold beginSearch Solver.depart
    dsimp only
    rw [hheading, hrange, if_neg (not_not.mpr hslope), if_pos hspent,
      if_pos (by rw [hm.evaluations]; exact hspent)]
    exact ⟨hm.exhaust (some p) hnorm, hkeeps _ .evaluationsSpent, congrArg Point.x hbase⟩
  · rw [Solver.depart_of_descent hheading hslope hspent]
    have hrecent : w.search.recent = s.recent := hw.recent
    unfold beginSearch
    dsimp only
    rw [hrange, if_neg (by rw [hm.evaluations]; exact hspent), LineSearch.start_eq, hw.config,
      hrecent, hbase]
    cases hstart : Run.start m.config s.recent p.f h.slope
      ((s.turn h).stepRange m.config p h).first ((s.turn h).stepRange m.config p h).least
      ((s.turn h).stepRange m.config p h).greatest with
    | error refusal =>
      have htask : (Verdict.ofRefusal refusal).task = .error := by
        cases refusal <;> rfl
      have hstatus : (Verdict.ofRefusal refusal).status = refusalStatus refusal := by
        cases refusal <;> rfl
      refine ⟨?_, ?_, rfl⟩
      · dsimp only [Except.map]
        rw [← hstatus]
        exact hm.fail (some p) (.ofRefusal refusal) htask
          (Verdict.failure?_ofRefusal m.config refusal) hnorm
      · have hholds := hkeeps ((s.turn h).stepRange m.config p h).firstHit (.ofRefusal refusal)
        rw [hbase] at hholds
        exact hholds
    | ok run =>
      refine ⟨?_, ?_, ?_⟩
      · have hset := hm.set hclean (.searching
          ⟨p, h.direction, ((s.turn h).stepRange m.config p h).firstHit, run⟩) rfl hnorm
        exact hset
      · exact ⟨⟨hw.box, rfl, rfl, hw.last, hw.engine, hw.openingNorm⟩, rfl, rfl, hdirection, rfl,
          (Run.slope_of_start hstart).symm, rfl⟩
      · show Solver.trialPoint w.box p w.direction run.step = _
        rw [hw.box, hdirection]
        rfl

/-- What the engine of a workspace proposes is what the run does. -/
theorem propose_eq (hw : w.Keeps c s) (hbase : w.base = p)
    (heffective : w.effective = s.box.effectiveGradient p.x p.g) :
    w.propose c s.step =
      ({ w with engine := (s.propose c p).1, direction := (s.propose c p).2.1 },
        (s.propose c p).2.2) := by
  unfold Workspace.propose Solver.propose
  cases hengine : s.engine with
  | conjugate last =>
    rw [hw.engine, hengine, hbase]
  | metric pairs =>
    have hsame : w.engine = .metric pairs := by rw [hw.engine, hengine]
    rw [hsame, hbase, hw.box, heffective]

/-- Steepest descent after a proposal. -/
theorem steepest_eq (hbase : w.base = p)
    (heffective : w.effective = s.box.effectiveGradient p.x p.g)
    (hengine : w.engine = (s.propose c p).1) :
    w.steepest = { w with engine := (s.steepest p).1, direction := (s.steepest p).2 } := by
  unfold Workspace.steepest Solver.steepest
  unfold Solver.propose at hengine
  cases hkind : s.engine with
  | conjugate last =>
    rw [hkind] at hengine
    rw [hengine, hbase]
  | metric pairs =>
    rw [hkind] at hengine
    rw [hengine, heffective]

/-- Machine and run fall back on steepest descent alike. -/
theorem follows_steepest {h : Solver.Heading α n} (hheading : s.heading c p = h)
    (hm : m.Counts c (s.turn h)) (hclean : m.failure? = none) (hnorm : m.norm? = some s.norm)
    (hw : w.Keeps c (s.turn h)) (hstage : w.stage = .accepted) (hbase : w.base = p)
    (hdirection : w.direction = h.direction) :
    Follows c
      (if h.slope < 0 then m.beginSearch w h.slope
        else (m.fail .notADescent (.notDescent h.slope), w, w.base.x))
      (s.depart c p) := by
  by_cases hslope : h.slope < 0
  · rw [if_pos hslope]
    exact follows_beginSearch hheading hm hclean hnorm hw hstage hbase hdirection hslope
  · rw [if_neg hslope, Solver.depart_of_not_descent hheading hslope]
    have hfail := hm.fail (some p) (.notDescent h.slope) rfl rfl hnorm
    refine ⟨hfail, ⟨hw.rephase _, ?_, hbase⟩, congrArg Point.x hbase⟩
    rw [hstage]
    decide

/-- Machine and run leave an accepted point alike. -/
theorem follows_onNewX (hm : m.Shows c s) (hw : w.Holds c s) (hphase : s.phase = .accepted p) :
    Follows c (m.onNewX w) (s.depart c p) := by
  obtain rfl : m.config = c := hm.config
  have hrunning : s.task.isTerminal = false := by
    rw [Solver.task_of_accepted hphase]
    rfl
  have hclean := hm.failure?_eq_none hrunning
  have hnorm : m.norm? = some s.norm := by
    rw [hm.norm, Solver.gradientNorm?, Solver.accepted?_of_accepted hphase]
    rfl
  have hholds := hw.phase
  rw [hphase] at hholds
  obtain ⟨hstage, hbase, heffective⟩ := hholds
  rw [hw.box] at heffective
  unfold onNewX
  rw [hm.step, propose_eq hw.toKeeps hbase heffective, hnorm, Option.getD_some]
  dsimp only
  rw [hbase]
  by_cases hdescends : descends m.config (dot p.g (s.propose m.config p).2.1) s.norm
    (norm2 (s.propose m.config p).2.1) = true
  · rw [if_pos hdescends]
    refine follows_beginSearch (Solver.heading_of_descends hdescends) ?_ hclean rfl ?_ hstage rfl
      rfl (slope_neg_of_descends hdescends)
    · refine ⟨rfl, hm.isOpen, hm.iterations, hm.evaluations, ?_, rfl⟩
      show (if (s.propose m.config p).2.2 then m.restarts + 1 else m.restarts) =
        s.restarts + if (s.propose m.config p).2.2 then 1 else 0
      rw [hm.restarts]
      split <;> rfl
    · exact ⟨hw.box, hw.config, hw.recent, hw.last, rfl, hw.openingNorm⟩
  · rw [if_neg hdescends, steepest_eq rfl heffective rfl]
    dsimp only
    refine follows_steepest (Solver.heading_of_not_descends hdescends) ?_ hclean rfl ?_ hstage rfl
      rfl
    · refine ⟨rfl, hm.isOpen, hm.iterations, hm.evaluations, ?_, rfl⟩
      show (if (s.propose m.config p).2.2 then m.restarts + 1 else m.restarts) + 1 =
        s.restarts + ((if (s.propose m.config p).2.2 then 1 else 0) + 1)
      rw [hm.restarts]
      split <;> rfl
    · exact ⟨hw.box, hw.config, hw.recent, hw.last, rfl, hw.openingNorm⟩

/-- **Calls.**  In a run that goes on, whatever the caller passes, a call is accepted and
leads machine and run to the same place. -/
theorem follows_advance (hm : m.Shows c s) (hw : w.Holds c s)
    (hrunning : s.task.isTerminal = false) (x : Vector α n) (f : α) (g : Vector α n) :
    (m.advance w x f g).1 = .ok (m.advance w x f g).2.1.task ∧
      Follows c (m.advance w x f g).2 (s.advance c x f g) := by
  have hphase := hw.phase
  unfold advance Solver.advance
  rw [hm.task]
  cases hs : s.phase with
  | opening =>
    rw [hs] at hphase
    have hstage : w.stage = .initial := hphase
    rw [Solver.task_of_opening hs]
    unfold onEvaluation
    rw [hstage]
    exact ⟨rfl, follows_answerInitial hm hw hs x f g⟩
  | searching trial =>
    rw [hs] at hphase
    have hstage : w.stage = .search := hphase.1
    rw [Solver.task_of_searching hs]
    unfold onEvaluation
    rw [hstage]
    exact ⟨rfl, follows_answerSearch hm hw hs x f g⟩
  | accepted p =>
    rw [Solver.task_of_accepted hs]
    exact ⟨rfl, follows_onNewX hm hw hs⟩
  | stopped last verdict =>
    rw [Solver.isTerminal_of_stopped hs] at hrunning
    cases hrunning

/-! ## One exchange -/

theorem iterate_of_closed (hclosed : m.closed = true) (x : Array α) (f : α) (g : Array α) :
    m.iterate x f g = (.error .usedAfterClose, m, x) := by
  rw [iterate, if_pos hclosed]

theorem iterate_of_isTerminal (hopen : m.closed = false) (hterm : m.task.isTerminal = true)
    (x : Array α) (f : α) (g : Array α) : m.iterate x f g = (.ok m.task, m, x) := by
  rw [iterate, if_neg (Bool.eq_false_iff.mp hopen), if_pos hterm]

section Running

variable (hopen : m.closed = false) (hrunning : m.task.isTerminal = false)
include hopen hrunning

theorem iterate_of_size_x {x : Array α} (hx : x.size ≠ n) (f : α) (g : Array α) :
    m.iterate x f g = (.error (.dimensionMismatch "x" n x.size), m, x) := by
  rw [iterate, if_neg (Bool.eq_false_iff.mp hopen), if_neg (Bool.eq_false_iff.mp hrunning),
    dif_neg hx]

theorem iterate_of_size_gradient {x g : Array α} (hx : x.size = n) (hg : g.size ≠ n) (f : α) :
    m.iterate x f g = (.error (.dimensionMismatch "gradient" n g.size), m, x) := by
  rw [iterate, if_neg (Bool.eq_false_iff.mp hopen), if_neg (Bool.eq_false_iff.mp hrunning),
    dif_pos hx, dif_neg hg]

theorem iterate_of_running (hw : m.workspace? = some w) (x : Vector α n) (f : α)
    (g : Vector α n) :
    let result := ({ m with workspace? := none } : Machine α n).advance w x f g
    m.iterate x.toArray f g.toArray =
      (result.1, { result.2.1 with workspace? := some result.2.2.1 }, result.2.2.2.toArray) := by
  rw [iterate, if_neg (Bool.eq_false_iff.mp hopen), if_neg (Bool.eq_false_iff.mp hrunning),
    dif_pos x.size_toArray, dif_pos g.size_toArray, hw]

end Running

/-! ## Machines and optimizers -/

/-- A machine shows its caller what an optimizer does, and its workspace, which it has as
long as it is open and its input was valid, holds the run. -/
structure Represents (m : Machine α n) (o : Optimizer α n) : Prop where
  config : m.config = o.config
  closed : m.closed = o.closed
  task : m.task = o.task
  status : m.status = o.status
  failure : m.failure? = o.failure?
  iterations : m.iterations = o.iterations
  evaluations : m.evaluations = o.evaluations
  restarts : m.restarts = o.restarts
  step : m.step = o.step
  norm : m.norm? = o.gradientNorm?
  holds : ∀ s, o.closed = false → o.body = .ok s →
    ∃ w, m.workspace? = some w ∧ w.Holds o.config s
  missing : o.closed = true ∨ (∃ e, o.body = .error e) → m.workspace? = none

section Represents

variable {o : Optimizer α n}

/-- What the fields of an open machine show. -/
theorem Represents.shows (h : m.Represents o) (hopen : o.closed = false) (hbody : o.body = .ok s) :
    m.Shows o.config s where
  config := h.config
  isOpen := by rw [h.closed, hopen]
  iterations := by rw [h.iterations, Optimizer.iterations_of_body hbody]
  evaluations := by rw [h.evaluations, Optimizer.evaluations_of_body hbody]
  restarts := by
    rw [h.restarts, Optimizer.restarts, Optimizer.solver?, hbody]
    rfl
  step := by
    rw [h.step, Optimizer.step, Optimizer.solver?, hbody]
    rfl
  task := by rw [h.task, Optimizer.task_of_body hbody]
  status := by rw [h.status, Optimizer.status, hbody]
  failure := by rw [h.failure, Optimizer.failure?, hbody]
  norm := by
    rw [h.norm, Optimizer.gradientNorm?, Optimizer.solver?, hbody]
    rfl

/-- The workspace is not among the fields that show the run. -/
theorem Shows.bare (hm : m.Shows c s) :
    ({ m with workspace? := none } : Machine α n).Shows c s where
  config := hm.config
  isOpen := hm.isOpen
  iterations := hm.iterations
  evaluations := hm.evaluations
  restarts := hm.restarts
  step := hm.step
  task := hm.task
  status := hm.status
  failure := hm.failure
  norm := hm.norm

/-- An open machine that shows a run, with a workspace that holds it. -/
theorem Shows.represents (hm : m.Shows o.config s) (hw : w.Holds o.config s)
    (hopen : o.closed = false) (hbody : o.body = .ok s) :
    ({ m with workspace? := some w } : Machine α n).Represents o where
  config := hm.config
  closed := hm.isOpen.trans hopen.symm
  task := hm.task.trans (Optimizer.task_of_body hbody).symm
  status := by
    rw [Optimizer.status, hbody]
    exact hm.status
  failure := by
    rw [Optimizer.failure?, hbody]
    exact hm.failure
  iterations := hm.iterations.trans (Optimizer.iterations_of_body hbody).symm
  evaluations := hm.evaluations.trans (Optimizer.evaluations_of_body hbody).symm
  restarts := by
    rw [Optimizer.restarts, Optimizer.solver?, hbody]
    exact hm.restarts
  step := by
    rw [Optimizer.step, Optimizer.solver?, hbody]
    exact hm.step
  norm := by
    rw [Optimizer.gradientNorm?, Optimizer.solver?, hbody]
    exact hm.norm
  holds := by
    intro s' _ hbody'
    obtain rfl : s = s' := Except.ok.inj (hbody.symm.trans hbody')
    exact ⟨w, rfl, hw⟩
  missing := by
    rintro (hclosed | ⟨e, herror⟩)
    · rw [hopen] at hclosed
      cases hclosed
    · rw [hbody] at herror
      cases herror

/-- The accepted point that a machine shows. -/
theorem Represents.accepted?_eq (h : m.Represents o) : m.accepted? = o.accepted? := by
  unfold accepted? Optimizer.accepted?
  cases hclosed : o.closed with
  | true =>
    rw [h.missing (.inl hclosed)]
    rfl
  | false =>
    cases hbody : o.body with
    | error e =>
      rw [h.missing (.inr ⟨e, hbody⟩), Optimizer.solver?, hbody]
      rfl
    | ok s =>
      obtain ⟨w, hw, hholds⟩ := h.holds s hclosed hbody
      rw [hw, Optimizer.solver?, hbody]
      exact hholds.phase.accepted?_eq

/-- The number of curvature pairs that a machine shows. -/
theorem Represents.memoryLength_eq (h : m.Represents o) : m.memoryLength = o.memoryLength := by
  unfold memoryLength Optimizer.memoryLength
  cases hclosed : o.closed with
  | true =>
    rw [h.missing (.inl hclosed)]
    rfl
  | false =>
    cases hbody : o.body with
    | error e =>
      rw [h.missing (.inr ⟨e, hbody⟩), Optimizer.solver?, hbody]
      rfl
    | ok s =>
      obtain ⟨w, hw, hholds⟩ := h.holds s hclosed hbody
      rw [hw, Optimizer.solver?, hbody]
      show w.engine.memoryLength = s.engine.memoryLength
      rw [hholds.engine]

/-- Both look at the same input in the same order. -/
theorem prepare_eq (x₀ : Vector α n) (c : Config α) (bounds : Bounds α) :
    prepare x₀ c bounds =
      (Optimizer.begin? x₀ c bounds).map fun s => Workspace.initial c s.box := by
  unfold prepare Optimizer.begin?
  cases c.validate with
  | error e => rfl
  | ok u =>
    cases checkStart x₀.toArray with
    | error e => rfl
    | ok u =>
      cases Box.ofBounds bounds n with
      | error e => simp only [bind, Except.bind, Except.map]
      | ok box =>
        cases hsupport : checkBoundsSupport c box with
        | error e => simp only [bind, Except.bind, Except.map, hsupport]
        | ok u => simp only [bind, Except.bind, Except.map, hsupport, Solver.initial]

/-- A machine for invalid input shows why it is. -/
theorem represents_start_of_error {x₀ : Vector α n} {c : Config α} {bounds : Bounds α}
    {e : Failure α} (hbegin : Optimizer.begin? x₀ c bounds = .error e) :
    (start x₀ c bounds).Represents (Optimizer.start x₀ c bounds) := by
  have hbody : (Optimizer.start x₀ c bounds).body = .error e := hbegin
  have hstart : start x₀ c bounds =
      { config := c
        task := .inputError
        status := (Optimizer.start x₀ c bounds).status
        failure? := some e
        iterations := 0
        evaluations := 0
        restarts := 0
        step := 0
        norm? := none
        closed := false
        workspace? := none } := by
    unfold start
    rw [prepare_eq, hbegin, Optimizer.status, hbody]
    cases e <;> rfl
  have hsolver : (Optimizer.start x₀ c bounds).solver? = none := by rw [Optimizer.solver?, hbody]
  rw [hstart]
  refine ⟨rfl, rfl, ?_, rfl, ?_, ?_, ?_, ?_, ?_, ?_, ?_, fun _ => rfl⟩
  · rw [Optimizer.task, hbody]
  · rw [Optimizer.failure?, hbody]
  · rw [Optimizer.iterations, hsolver]
    rfl
  · rw [Optimizer.evaluations, hsolver]
    rfl
  · rw [Optimizer.restarts, hsolver]
    rfl
  · rw [Optimizer.step, hsolver]
    rfl
  · rw [Optimizer.gradientNorm?, hsolver]
    rfl
  · intro s _ hbody'
    rw [hbody] at hbody'
    cases hbody'

/-- A machine for valid input shows the run that begins. -/
theorem represents_start_of_ok {x₀ : Vector α n} {c : Config α} {bounds : Bounds α}
    {s : Solver α n} (hbegin : Optimizer.begin? x₀ c bounds = .ok s) :
    (start x₀ c bounds).Represents (Optimizer.start x₀ c bounds) := by
  have hbody : (Optimizer.start x₀ c bounds).body = .ok s := hbegin
  obtain ⟨-, -, box, -, -, rfl⟩ := Optimizer.begin?_eq_ok hbegin
  have hstart : start x₀ c bounds =
      { config := c
        task := .computeFG
        status := .success
        failure? := none
        iterations := 0
        evaluations := 0
        restarts := 0
        step := 0
        norm? := none
        closed := false
        workspace? := some (.initial c box) } := by
    unfold start
    rw [prepare_eq, hbegin]
    rfl
  rw [hstart]
  refine Shows.represents (s := .initial c box) (m := ⟨c, .computeFG, .success, none, 0, 0, 0, 0,
    none, false, none⟩) ?_ ?_ rfl hbody
  · exact ⟨⟨rfl, rfl, rfl, rfl, rfl, rfl⟩, rfl, rfl, rfl, rfl⟩
  · exact ⟨⟨rfl, rfl, rfl, rfl, rfl, rfl⟩, rfl⟩

theorem represents_start (x₀ : Vector α n) (c : Config α) (bounds : Bounds α) :
    (start x₀ c bounds).Represents (Optimizer.start x₀ c bounds) := by
  cases hbegin : Optimizer.begin? x₀ c bounds with
  | error e => exact represents_start_of_error hbegin
  | ok s => exact represents_start_of_ok hbegin

/-- Machine and optimizer are closed alike. -/
theorem Represents.close (h : m.Represents o) : m.close.Represents o.close where
  config := h.config
  closed := rfl
  task := h.task
  status := h.status
  failure := h.failure
  iterations := h.iterations
  evaluations := h.evaluations
  restarts := h.restarts
  step := h.step
  norm := h.norm
  holds := by
    intro s hopen
    cases hopen
  missing := fun _ => rfl

/-- In a run that goes on, both accept points and gradients of the right size. -/
theorem Represents.iterate_of_running (h : m.Represents o) (hopen : o.closed = false)
    (hterm : o.task.isTerminal = false) (x : Vector α n) (f : α) (g : Vector α n) :
    ∃ o' m' x', o.iterate x.toArray f g.toArray = .ok (o', x') ∧
      m.iterate x.toArray f g.toArray = (.ok o'.task, m', x') ∧ m'.Represents o' := by
  have hmopen : m.closed = false := by rw [h.closed, hopen]
  have hmterm : m.task.isTerminal = false := by rw [h.task, hterm]
  obtain ⟨s, hbody⟩ := o.exists_body_of_isTerminal hterm
  obtain ⟨w, hw, hholds⟩ := h.holds s hopen hbody
  have hrunning : s.task.isTerminal = false := by
    rw [← Optimizer.task_of_body hbody, hterm]
  have hadvance := follows_advance (h.shows hopen hbody).bare hholds hrunning x f g
  have hiter := Machine.iterate_of_running hmopen hmterm hw x f g
  rcases hresult : ({ m with workspace? := none } : Machine α n).advance w x f g
    with ⟨answer, m', w', x'⟩
  rw [hresult] at hadvance hiter
  obtain ⟨hanswer, hfollows⟩ := hadvance
  have hpoint : x' = (s.advance o.config x f g).2 := hfollows.point
  have htask : m'.task = (s.advance o.config x f g).1.task := hfollows.shows_run.task
  refine ⟨o.proceed (s.advance o.config x f g).1, { m' with workspace? := some w' }, x'.toArray,
    ?_, ?_, hfollows.shows_run.represents (o := o.proceed _) hfollows.holds hopen rfl⟩
  · rw [hpoint]
    exact Optimizer.iterate_of_running hopen hbody hrunning x f g
  · rw [Optimizer.task_proceed, ← htask, hiter, show answer = .ok m'.task from hanswer]

/-- **Exchanges.**  An exchange with the machine is the exchange with the optimizer: both
refuse it with the same failure, and the machine and the caller's point stay as they are,
or both accept it and show the same afterwards. -/
theorem Represents.iterate (h : m.Represents o) (x : Array α) (f : α) (g : Array α) :
    (∃ e, o.iterate x f g = .error e ∧ m.iterate x f g = (.error e, m, x)) ∨
      ∃ o' m' x', o.iterate x f g = .ok (o', x') ∧ m.iterate x f g = (.ok o'.task, m', x') ∧
        m'.Represents o' := by
  cases hclosed : o.closed with
  | true =>
    have hmclosed : m.closed = true := by rw [h.closed, hclosed]
    left
    exact ⟨.usedAfterClose, o.iterate_of_closed hclosed x f g, iterate_of_closed hmclosed x f g⟩
  | false =>
    have hmopen : m.closed = false := by rw [h.closed, hclosed]
    cases hterm : o.task.isTerminal with
    | true =>
      right
      refine ⟨o, m, x, o.iterate_of_isTerminal hclosed hterm x f g, ?_, h⟩
      rw [iterate_of_isTerminal hmopen (by rw [h.task, hterm]) x f g, h.task]
    | false =>
      have hmterm : m.task.isTerminal = false := by rw [h.task, hterm]
      obtain ⟨s, hbody⟩ := o.exists_body_of_isTerminal hterm
      by_cases hx : x.size = n
      · by_cases hg : g.size = n
        · right
          exact h.iterate_of_running hclosed hterm ⟨x, hx⟩ f ⟨g, hg⟩
        · left
          refine ⟨.dimensionMismatch "gradient" n g.size, ?_,
            iterate_of_size_gradient hmopen hmterm hx hg f⟩
          unfold Optimizer.iterate
          rw [hclosed, hbody, if_neg (by decide)]
          dsimp only
          rw [if_neg (by rw [← Optimizer.task_of_body hbody, hterm]; decide), dif_pos hx,
            dif_neg hg]
      · left
        refine ⟨.dimensionMismatch "x" n x.size, ?_, iterate_of_size_x hmopen hmterm hx f g⟩
        unfold Optimizer.iterate
        rw [hclosed, hbody, if_neg (by decide)]
        dsimp only
        rw [if_neg (by rw [← Optimizer.task_of_body hbody, hterm]; decide), dif_neg hx]

end Represents

end Machine

end Descent
