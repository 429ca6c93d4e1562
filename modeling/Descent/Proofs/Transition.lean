/-
# Transitions as a relation

Everything that one exchange can do to a run, one case for each way through it,
with the tests that were passed on that way.

* `Solver.depart_eq` : a departure, by what becomes of it;
* `Solver.Transition` : the cases;
* `Solver.transition_advance` : an exchange is one of them;
* `Solver.advance_of_opening`, `Solver.advance_of_search`, … : where the way is known, the result.
-/
import Descent.Optimizer

namespace Descent

open Scalar

variable {α : Type} [Scalar α] {n : Nat}

/-! ## Answers and their flaws -/

theorem isFinite_value_of_flaw? {f : α} {g : Vector α n} (h : flaw? f g = none) :
    isFinite f = true := by
  cases hf : isFinite f with
  | true => rfl
  | false => simp [flaw?, hf] at h

theorem isFinite_gradient_of_flaw? {f : α} {g : Vector α n} (h : flaw? f g = none) (i : Nat)
    (hi : i < n) : isFinite g[i] = true := by
  have hf := isFinite_value_of_flaw? h
  unfold flaw? at h
  simp only [hf, Bool.not_true, Bool.false_eq_true, if_false] at h
  split at h
  · cases h
  · next hnone =>
    refine firstFailing?_eq_none hnone ?_
    rw [Vector.mem_toList_iff]
    exact Vector.getElem_mem hi

/-- A finite answer has no flaw. -/
theorem flaw?_of_isFinite {f : α} {g : Vector α n} (hf : isFinite f = true)
    (hg : ∀ i (hi : i < n), isFinite g[i] = true) : flaw? f g = none := by
  have hpass : firstFailing? isFinite g.toList = none := by
    refine firstFailing?_of_forall ?_
    intro v hv
    obtain ⟨i, hi, rfl⟩ := Vector.mem_iff_getElem.mp (Vector.mem_toList_iff.mp hv)
    exact hg i hi
  rw [flaw?, hf, hpass]
  rfl

theorem task_of_flaw? {f : α} {g : Vector α n} {v : Verdict α} (h : flaw? f g = some v) :
    v.task = .error := by
  unfold flaw? at h
  split at h
  · cases h
    rfl
  · split at h
    · cases h
      rfl
    · cases h

theorem status_of_flaw? {f : α} {g : Vector α n} {v : Verdict α} (h : flaw? f g = some v) :
    v.status = .undefinedValue := by
  unfold flaw? at h
  split at h
  · cases h
    rfl
  · split at h
    · cases h
      rfl
    · cases h

namespace Solver

/-! ## What a phase tells -/

section Phases

variable {s : Solver α n} {trial : Trial α n} {p : Point α n} {last : Option (Point α n)}
  {verdict : Verdict α}

omit [Scalar α]

theorem task_of_opening (h : s.phase = .opening) : s.task = .computeFG := by
  rw [task, h]
  rfl

theorem task_of_searching (h : s.phase = .searching trial) : s.task = .computeFG := by
  rw [task, h]
  rfl

theorem task_of_accepted (h : s.phase = .accepted p) : s.task = .newX := by
  rw [task, h]
  rfl

/-- A run that has stopped has a terminal task. -/
theorem isTerminal_of_stopped (h : s.phase = .stopped last verdict) :
    s.task.isTerminal = true := by
  rw [task, h]
  exact verdict.isTerminal_task

/-- A run that shows a point waits there. -/
theorem exists_accepted_of_newX (h : s.task = .newX) : ∃ p, s.phase = .accepted p := by
  cases hphase : s.phase with
  | accepted p => exact ⟨p, rfl⟩
  | opening =>
    rw [task_of_opening hphase] at h
    cases h
  | searching trial =>
    rw [task_of_searching hphase] at h
    cases h
  | stopped last verdict =>
    have hterm := isTerminal_of_stopped hphase
    rw [h] at hterm
    cases hterm

theorem accepted?_of_opening (h : s.phase = .opening) : s.accepted? = none := by
  rw [accepted?, h]
  rfl

/-- A line search keeps the point where it began. -/
theorem accepted?_of_searching (h : s.phase = .searching trial) :
    s.accepted? = some trial.base := by
  rw [accepted?, h]
  rfl

/-- An accepted point is kept. -/
theorem accepted?_of_accepted (h : s.phase = .accepted p) : s.accepted? = some p := by
  rw [accepted?, h]
  rfl

theorem accepted?_of_stopped (h : s.phase = .stopped last verdict) : s.accepted? = last := by
  rw [accepted?, h]
  rfl

/-- The opening asks for an evaluation while nothing is accepted. -/
theorem ne_opening_of_accepted? (h : s.accepted? = some p) : s.phase ≠ .opening := by
  intro hopening
  rw [accepted?_of_opening hopening] at h
  cases h

/-- A run whose task is terminal is past its opening. -/
theorem ne_opening_of_isTerminal (h : s.task.isTerminal = true) : s.phase ≠ .opening := by
  intro hopening
  rw [task_of_opening hopening] at h
  cases h

end Phases

/-! ## Points taken up -/

/-- The state after the first point has been taken up, except for its phase. -/
def takeFirst (c : Config α) (s : Solver α n) (p : Point α n) : Solver α n :=
  { s with
    evaluations := s.evaluations + 1
    recent := remember c p.f s.recent
    norm := s.gradientNormAt p
    openingNorm := s.gradientNormAt p }

/-- The state after a trial point has been taken up, except for its phase. -/
def takeStep (c : Config α) (s : Solver α n) (trial : Trial α n) (p : Point α n) : Solver α n :=
  ({ s with evaluations := s.evaluations + 1 } : Solver α n).accept c trial p

/-- The state after a heading has been chosen. -/
def turn (s : Solver α n) (h : Heading α n) : Solver α n :=
  { s with engine := h.engine, restarts := s.restarts + h.restarts }

/-- A newly accepted point is the one that the run keeps. -/
@[simp] theorem accepted?_settle (c : Config α) (s : Solver α n) (p : Point α n) :
    (s.settle c p).accepted? = some p := by
  unfold settle
  split
  · rfl
  · split <;> rfl

omit [Scalar α] in
@[simp] theorem accepted?_heed (remark : Option StopReason) (phase : Phase α n) :
    (heed remark phase).accepted? = phase.accepted? := by
  unfold heed
  split <;> rfl

/-- A newly accepted point ends the run, or another step may be accepted. -/
theorem settle_cases (c : Config α) (s : Solver α n) (p : Point α n) :
    (∃ verdict, s.settle c p = .stopped (some p) verdict) ∨
      (s.settle c p = .accepted p ∧ s.iterations < c.maxIterations) := by
  unfold settle
  split
  · left; exact ⟨_, rfl⟩
  · split
    · left; exact ⟨_, rfl⟩
    · next hleft => right; exact ⟨rfl, Nat.lt_of_not_le hleft⟩

/-- A remark on a newly accepted point ends the run or changes nothing. -/
theorem heed_settle_cases (c : Config α) (s : Solver α n) (p : Point α n)
    (remark : Option StopReason) :
    (∃ verdict, heed remark (s.settle c p) = .stopped (some p) verdict) ∨
      (heed remark (s.settle c p) = .accepted p ∧ s.iterations < c.maxIterations) := by
  rcases s.settle_cases c p with ⟨verdict, h⟩ | ⟨h, hleft⟩
  · left
    refine ⟨verdict, ?_⟩
    rw [h]
    unfold heed
    split
    · next hq => cases hq
    · rfl
  · rw [h]
    unfold heed
    split
    · next hq => cases hq; left; exact ⟨_, rfl⟩
    · right; exact ⟨rfl, hleft⟩

/-- A newly accepted point ends the opening. -/
theorem heed_settle_ne_opening (c : Config α) (s : Solver α n) (p : Point α n)
    (remark : Option StopReason) : heed remark (s.settle c p) ≠ .opening := by
  intro hopening
  rcases s.heed_settle_cases c p remark with ⟨verdict, h⟩ | ⟨h, -⟩
  · rw [h] at hopening
    cases hopening
  · rw [h] at hopening
    cases hopening

/-- A newly accepted point ends a line search. -/
theorem heed_settle_ne_searching (c : Config α) (s : Solver α n) (p : Point α n)
    (remark : Option StopReason) (trial : Trial α n) :
    heed remark (s.settle c p) ≠ .searching trial := by
  intro hsearching
  rcases s.heed_settle_cases c p remark with ⟨verdict, h⟩ | ⟨h, -⟩
  · rw [h] at hsearching
    cases hsearching
  · rw [h] at hsearching
    cases hsearching

/-! ## Headings -/

/-- The slope of a heading is the one along its direction, and its length that of the
direction. -/
theorem heading_spec (c : Config α) (s : Solver α n) (p : Point α n) :
    (s.heading c p).slope = dot p.g (s.heading c p).direction ∧
      (s.heading c p).length = norm2 (s.heading c p).direction := by
  unfold heading
  dsimp only
  split
  · exact ⟨rfl, rfl⟩
  · exact ⟨rfl, rfl⟩

/-- The heading where the proposed direction descends. -/
theorem heading_of_descends {c : Config α} {s : Solver α n} {p : Point α n}
    (h : descends c (dot p.g (s.propose c p).2.1) s.norm (norm2 (s.propose c p).2.1) = true) :
    s.heading c p =
      { engine := (s.propose c p).1
        direction := (s.propose c p).2.1
        slope := dot p.g (s.propose c p).2.1
        length := norm2 (s.propose c p).2.1
        restarts := if (s.propose c p).2.2 then 1 else 0 } := by
  unfold heading
  dsimp only
  rw [if_pos h]

/-- The heading where steepest descent takes the place of the proposed direction. -/
theorem heading_of_not_descends {c : Config α} {s : Solver α n} {p : Point α n}
    (h : ¬ descends c (dot p.g (s.propose c p).2.1) s.norm (norm2 (s.propose c p).2.1) = true) :
    s.heading c p =
      { engine := (s.steepest p).1
        direction := (s.steepest p).2
        slope := dot p.g (s.steepest p).2
        length := norm2 (s.steepest p).2
        restarts := (if (s.propose c p).2.2 then 1 else 0) + 1 } := by
  unfold heading
  dsimp only
  rw [if_neg h]

/-- The engine of a heading is the one that proposed its direction, or the one that was left
behind by steepest descent; the latter counts as another restart. -/
theorem heading_cases (c : Config α) (s : Solver α n) (p : Point α n) :
    ((s.heading c p).engine = (s.propose c p).1 ∧
        (s.heading c p).restarts = if (s.propose c p).2.2 then 1 else 0) ∨
      ((s.heading c p).engine = (s.steepest p).1 ∧
        (s.heading c p).restarts = (if (s.propose c p).2.2 then 1 else 0) + 1) := by
  by_cases h : descends c (dot p.g (s.propose c p).2.1) s.norm (norm2 (s.propose c p).2.1) = true
  · rw [heading_of_descends h]
    exact .inl ⟨rfl, rfl⟩
  · rw [heading_of_not_descends h]
    exact .inr ⟨rfl, rfl⟩

/-! ## Departures -/

/-- The phase in which a run begins a line search along a heading, or is refused one, and the
point handed back. -/
def searchAlong (c : Config α) (s : Solver α n) (p : Point α n) (h : Heading α n) :
    Phase α n × Vector α n :=
  let range := (s.turn h).stepRange c p h
  match Run.start c s.recent p.f h.slope range.first range.least range.greatest with
  | .error refusal => (.stopped (some p) (.ofRefusal refusal), p.x)
  | .ok run =>
    (.searching { base := p, direction := h.direction, firstHit := range.firstHit, run },
      trialPoint s.box p h.direction run.step)

/-- Whatever comes of a departure, the accepted point is kept. -/
theorem accepted?_searchAlong (c : Config α) (s : Solver α n) (p : Point α n) (h : Heading α n) :
    (s.searchAlong c p h).1.accepted? = some p := by
  unfold searchAlong
  dsimp only
  split
  · rfl
  · rfl

/-- A run leaves an accepted point along its heading, if that descends and an evaluation is
left. -/
theorem depart_eq (c : Config α) (s : Solver α n) (p : Point α n) :
    s.depart c p =
      if ¬ (s.heading c p).slope < 0 then
        ({ s.turn (s.heading c p) with
            phase := .stopped (some p) (.notDescent (s.heading c p).slope) }, p.x)
      else if c.maxEvaluations ≤ s.evaluations then
        ({ s.turn (s.heading c p) with phase := .stopped (some p) .evaluationsSpent }, p.x)
      else
        ({ s.turn (s.heading c p) with phase := (s.searchAlong c p (s.heading c p)).1 },
          (s.searchAlong c p (s.heading c p)).2) := by
  unfold depart searchAlong turn
  dsimp only
  by_cases hslope : (s.heading c p).slope < 0
  · rw [if_neg (not_not_intro hslope), if_neg (not_not_intro hslope)]
    by_cases hspent : c.maxEvaluations ≤ s.evaluations
    · rw [if_pos hspent, if_pos hspent]
    · rw [if_neg hspent, if_neg hspent]
      split
      · simp only [*]
      · simp only [*]
  · rw [if_pos hslope, if_pos hslope]

/-! ## The cases -/

/-- The ways in which a run goes on when its caller passes the point `x`, the value
`f` and the gradient `g`; the last two arguments are the state afterwards and the
vector handed back. -/
inductive Transition (c : Config α) (s : Solver α n) (x : Vector α n) (f : α) (g : Vector α n) :
    Solver α n → Vector α n → Prop
  /-- A first point outside the box is moved into it. -/
  | project (hs : s.phase = .opening) (hx : s.box.contains x = false) :
    Transition c s x f g s (s.box.project x)
  /-- The answer at the first point is not finite. -/
  | flawAtFirst (flaw : Verdict α) (hs : s.phase = .opening) (hx : s.box.contains x = true)
      (hflaw : flaw? f g = some flaw) :
    Transition c s x f g
      { s with evaluations := s.evaluations + 1, phase := .stopped none flaw } x
  /-- The first point is taken up. -/
  | first (hs : s.phase = .opening) (hx : s.box.contains x = true) (hflaw : flaw? f g = none) :
    Transition c s x f g
      { s.takeFirst c ⟨x, f, g⟩ with phase := (s.takeFirst c ⟨x, f, g⟩).settle c ⟨x, f, g⟩ } x
  /-- The answer at a trial point is not finite. -/
  | flawAtTrial (trial : Trial α n) (flaw : Verdict α) (hs : s.phase = .searching trial)
      (hflaw : flaw? f g = some flaw) :
    Transition c s x f g
      { s with evaluations := s.evaluations + 1, phase := .stopped (some trial.base) flaw }
      trial.base.x
  /-- The line search goes on, but no evaluation is left. -/
  | spentAtTrial (trial : Trial α n) (run : Run α) (hs : s.phase = .searching trial)
      (hflaw : flaw? f g = none)
      (hanswer : trial.run.answer c f (trialSlope trial.base x g trial.run.step) = .next run)
      (hspent : c.maxEvaluations ≤ s.evaluations + 1) :
    Transition c s x f g
      { s with
        evaluations := s.evaluations + 1
        phase := .stopped (some trial.base) .evaluationsSpent }
      trial.base.x
  /-- The line search goes on with another trial point. -/
  | retry (trial : Trial α n) (run : Run α) (hs : s.phase = .searching trial)
      (hflaw : flaw? f g = none)
      (hanswer : trial.run.answer c f (trialSlope trial.base x g trial.run.step) = .next run)
      (hleft : s.evaluations + 1 < c.maxEvaluations) :
    Transition c s x f g
      { s with evaluations := s.evaluations + 1, phase := .searching { trial with run } }
      (trialPoint s.box trial.base trial.direction run.step)
  /-- The trial point is taken up. -/
  | step (trial : Trial α n) (remark : Option StopReason) (hs : s.phase = .searching trial)
      (hflaw : flaw? f g = none)
      (hanswer :
        trial.run.answer c f (trialSlope trial.base x g trial.run.step) = .accepted remark) :
    Transition c s x f g
      { s.takeStep c trial ⟨x, f, g⟩ with
        phase := heed remark ((s.takeStep c trial ⟨x, f, g⟩).settle c ⟨x, f, g⟩) } x
  /-- The line search fails. -/
  | searchFailed (trial : Trial α n) (step : α) (reason : StopReason)
      (hs : s.phase = .searching trial) (hflaw : flaw? f g = none)
      (hanswer :
        trial.run.answer c f (trialSlope trial.base x g trial.run.step) = .failed step reason) :
    Transition c s x f g
      { s with
        evaluations := s.evaluations + 1
        phase := .stopped (some trial.base) (.searchFailed step reason) }
      trial.base.x
  /-- No direction descends from the accepted point. -/
  | notDescent (p : Point α n) (hs : s.phase = .accepted p) (hslope : ¬ (s.heading c p).slope < 0) :
    Transition c s x f g
      { s.turn (s.heading c p) with
        phase := .stopped (some p) (.notDescent (s.heading c p).slope) } p.x
  /-- No evaluation is left for another line search. -/
  | spentAtPoint (p : Point α n) (hs : s.phase = .accepted p) (hslope : (s.heading c p).slope < 0)
      (hspent : c.maxEvaluations ≤ s.evaluations) :
    Transition c s x f g
      { s.turn (s.heading c p) with phase := .stopped (some p) .evaluationsSpent } p.x
  /-- The line search is refused. -/
  | refused (p : Point α n) (range : StepRange α) (refusal : Refusal α)
      (hs : s.phase = .accepted p) (hslope : (s.heading c p).slope < 0)
      (hleft : s.evaluations < c.maxEvaluations)
      (hrange : range = (s.turn (s.heading c p)).stepRange c p (s.heading c p))
      (hstart : Run.start c s.recent p.f (s.heading c p).slope range.first range.least
        range.greatest = .error refusal) :
    Transition c s x f g
      { s.turn (s.heading c p) with phase := .stopped (some p) (.ofRefusal refusal) } p.x
  /-- A line search begins. -/
  | search (p : Point α n) (range : StepRange α) (run : Run α)
      (hs : s.phase = .accepted p) (hslope : (s.heading c p).slope < 0)
      (hleft : s.evaluations < c.maxEvaluations)
      (hrange : range = (s.turn (s.heading c p)).stepRange c p (s.heading c p))
      (hstart : Run.start c s.recent p.f (s.heading c p).slope range.first range.least
        range.greatest = .ok run) :
    Transition c s x f g
      { s.turn (s.heading c p) with
        phase := .searching
          { base := p, direction := (s.heading c p).direction, firstHit := range.firstHit, run } }
      (trialPoint s.box p (s.heading c p).direction run.step)
  /-- The run has stopped. -/
  | idle (last : Option (Point α n)) (verdict : Verdict α) (hs : s.phase = .stopped last verdict) :
    Transition c s x f g s x

/-! ## Every exchange is one of them -/

variable (c : Config α) (s : Solver α n) (x : Vector α n) (f : α) (g : Vector α n)

/-- An answer at the first point. -/
theorem transition_answerOpening (hs : s.phase = .opening) :
    Transition c s x f g (s.answerOpening c x f g).1 (s.answerOpening c x f g).2 := by
  unfold answerOpening
  cases hx : s.box.contains x with
  | false => exact .project hs hx
  | true =>
    cases hflaw : flaw? f g with
    | some flaw => exact .flawAtFirst flaw hs hx hflaw
    | none => exact .first hs hx hflaw

/-- An answer at a trial point. -/
theorem transition_answerTrial (trial : Trial α n) (hs : s.phase = .searching trial) :
    Transition c s x f g (s.answerTrial c trial x f g).1 (s.answerTrial c trial x f g).2 := by
  unfold answerTrial
  cases hflaw : flaw? f g with
  | some flaw => exact .flawAtTrial trial flaw hs hflaw
  | none =>
    cases hanswer : trial.run.answer c f (trialSlope trial.base x g trial.run.step) with
    | next run =>
      by_cases hspent : c.maxEvaluations ≤ s.evaluations + 1
      · simp only [hanswer, hspent, if_true]
        exact .spentAtTrial trial run hs hflaw hanswer hspent
      · simp only [hanswer, hspent, if_false]
        exact .retry trial run hs hflaw hanswer (Nat.lt_of_not_le hspent)
    | accepted remark =>
      simp only [hanswer]
      exact .step trial remark hs hflaw hanswer
    | failed step reason =>
      simp only [hanswer]
      exact .searchFailed trial step reason hs hflaw hanswer

/-- The departure from an accepted point. -/
theorem transition_depart (p : Point α n) (hs : s.phase = .accepted p) :
    Transition c s x f g (s.depart c p).1 (s.depart c p).2 := by
  -- the slope is tested first, then the budget, then the search itself
  unfold depart
  by_cases hslope : (s.heading c p).slope < 0
  · by_cases hspent : c.maxEvaluations ≤ s.evaluations
    · simp only [hslope, not_true_eq_false, if_false, hspent, if_true]
      exact .spentAtPoint p hs hslope hspent
    · simp only [hslope, not_true_eq_false, if_false, hspent]
      have hleft := Nat.lt_of_not_le hspent
      split
      · next refusal hstart => exact .refused p _ refusal hs hslope hleft rfl hstart
      · next run hstart => exact .search p _ run hs hslope hleft rfl hstart
  · simp only [hslope, not_false_eq_true, if_true]
    exact .notDescent p hs hslope

/-- An exchange is a transition. -/
theorem transition_advance :
    Transition c s x f g (s.advance c x f g).1 (s.advance c x f g).2 := by
  unfold advance
  cases hs : s.phase with
  | opening => exact transition_answerOpening c s x f g hs
  | searching trial => exact transition_answerTrial c s x f g trial hs
  | accepted p => exact transition_depart c s x f g p hs
  | stopped last verdict => exact .idle last verdict hs

variable {c s x f g}

/-! ## What a call makes of a run -/

/-- A finite answer at a first point of the box is taken up. -/
theorem advance_of_opening (hs : s.phase = .opening) (hx : s.box.contains x = true)
    (hflaw : flaw? f g = none) :
    s.advance c x f g =
      ({ s.takeFirst c ⟨x, f, g⟩ with
          phase := (s.takeFirst c ⟨x, f, g⟩).settle c ⟨x, f, g⟩ }, x) := by
  unfold advance answerOpening
  rw [hs, hx, hflaw]
  rfl

/-- A line search goes on with another trial point. -/
theorem advance_of_next {trial : Trial α n} {run : Run α} (hs : s.phase = .searching trial)
    (hflaw : flaw? f g = none)
    (hanswer : trial.run.answer c f (trialSlope trial.base x g trial.run.step) = .next run)
    (hleft : s.evaluations + 1 < c.maxEvaluations) :
    s.advance c x f g =
      ({ s with evaluations := s.evaluations + 1, phase := .searching { trial with run } },
        trialPoint s.box trial.base trial.direction run.step) := by
  unfold advance answerTrial
  simp only [hs, hflaw, hanswer, if_neg (Nat.not_le.mpr hleft)]

/-- A line search accepts its step. -/
theorem advance_of_accepted {trial : Trial α n} {remark : Option StopReason}
    (hs : s.phase = .searching trial) (hflaw : flaw? f g = none)
    (hanswer :
      trial.run.answer c f (trialSlope trial.base x g trial.run.step) = .accepted remark) :
    s.advance c x f g =
      ({ s.takeStep c trial ⟨x, f, g⟩ with
          phase := heed remark ((s.takeStep c trial ⟨x, f, g⟩).settle c ⟨x, f, g⟩) }, x) := by
  unfold advance answerTrial
  simp only [hs, hflaw, hanswer]
  rfl

/-- A line search begins along a heading that descends. -/
theorem advance_of_search {p : Point α n} {range : StepRange α} {run : Run α}
    (hs : s.phase = .accepted p) (hslope : (s.heading c p).slope < 0)
    (hleft : s.evaluations < c.maxEvaluations)
    (hrange : (s.turn (s.heading c p)).stepRange c p (s.heading c p) = range)
    (hstart : Run.start c s.recent p.f (s.heading c p).slope range.first range.least
      range.greatest = .ok run) :
    s.advance c x f g =
      ({ s.turn (s.heading c p) with
          phase := .searching
            { base := p, direction := (s.heading c p).direction, firstHit := range.firstHit,
              run } },
        trialPoint s.box p (s.heading c p).direction run.step) := by
  rw [advance_accepted c s p hs, depart_eq, if_neg (not_not_intro hslope),
    if_neg (Nat.not_le.mpr hleft), searchAlong, hrange]
  simp only [hstart]

/-! ## What does not change -/

variable {s' : Solver α n} {x' : Vector α n}

theorem Transition.box_eq (h : Transition c s x f g s' x') : s'.box = s.box := by
  cases h <;> rfl

/-- A run that is at its opening after a transition has moved its first point into the
box. -/
theorem Transition.opening_cases (h : Transition c s x f g s' x') (hopening : s'.phase = .opening) :
    s.phase = .opening ∧ s.box.contains x = false ∧ s' = s ∧ x' = s.box.project x := by
  cases h with
  | project hphase hx => exact ⟨hphase, hx, rfl, rfl⟩
  | idle last verdict hphase =>
    rw [hphase] at hopening
    cases hopening
  | first hphase hx hflaw => exact absurd hopening (heed_settle_ne_opening c _ _ none)
  | step trial remark hphase hflaw hanswer =>
    exact absurd hopening (heed_settle_ne_opening c _ _ remark)
  | _ => cases hopening

end Solver

end Descent
