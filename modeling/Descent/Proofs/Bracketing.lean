/-
# Rounds of a bracketing search

What a round of the search that brackets does to the two ends that it keeps, whatever the
arithmetic.

* `Span.update_cases`, `Bracket.moves_refine` : a trial becomes one of the two ends;
* `Bracket.settle_bracketed`, `Bracket.settle_open` : the range for the next trial;
* `Bracket.step_of_settle` : when a search falls back to the best step;
* `Bracket.advance_eq_next` : the tests that a round has failed when another one follows;
* `Run.answer_eq_next` : a search that goes on has gone through a round;
* `Run.backtrack_eq_next` : or has shortened its step;
* `Run.kept_of_next`, `Run.isExhausted_of_next` : in either case it keeps what it started from,
  and a trial is left;
* `LineSearch.iterate_of_running` : a line search does what its run answers.
-/
import Mathlib.Logic.Basic
import Descent.LineSearch

namespace Descent

open Scalar

variable {α : Type} [Scalar α]

/-! ## Ends -/

/-- A trial with a higher value becomes the other end, one with a slope of the other sign takes
the place of the best step, which becomes the other end, and any other trial takes the place of
the best step alone. -/
theorem Span.update_cases (s : Span α) (trial : Sample α) :
    (s.best.value < trial.value ∧
      s.update trial = { s with other := trial, bracketed := true }) ∨
    (¬ s.best.value < trial.value ∧ s.slopeAgreement trial < 0 ∧
      s.update trial = { best := trial, other := s.best, bracketed := true }) ∨
    (¬ s.best.value < trial.value ∧ ¬ s.slopeAgreement trial < 0 ∧
      s.update trial = { s with best := trial }) := by
  by_cases hrise : s.best.value < trial.value
  · exact .inl ⟨hrise, if_pos hrise⟩
  · by_cases hturn : s.slopeAgreement trial < 0
    · exact .inr (.inl ⟨hrise, hturn, (if_neg hrise).trans (if_pos hturn)⟩)
    · exact .inr (.inr ⟨hrise, hturn, (if_neg hrise).trans (if_neg hturn)⟩)

/-- The ends after a trial at a position: it has become one of them. -/
inductive Span.Moves (s : Span α) (position : α) (t : Span α) : Prop where
  /-- The trial closes the bracket. -/
  | rise (bracketed : t.bracketed = true) (best : t.best.position = s.best.position)
    (other : t.other.position = position)
  /-- The best step closes the bracket. -/
  | turn (bracketed : t.bracketed = true) (best : t.best.position = position)
    (other : t.other.position = s.best.position)
  /-- The trial is the best step. -/
  | pass (bracketed : t.bracketed = s.bracketed) (best : t.best.position = position)
    (other : t.other.position = s.other.position)

/-- A trial becomes one of the ends. -/
theorem Span.moves_update (s : Span α) (trial : Sample α) :
    s.Moves trial.position (s.update trial) := by
  rcases s.update_cases trial with ⟨-, h⟩ | ⟨-, -, h⟩ | ⟨-, -, h⟩
  · rw [h]
    exact .rise rfl rfl rfl
  · rw [h]
    exact .turn rfl rfl rfl
  · rw [h]
    exact .pass rfl rfl rfl

namespace Bracket

theorem moves_refine (b : Bracket α) (tilted : Bool) (incline : α) (trial : Sample α) :
    b.span.Moves trial.position (b.refine tilted incline trial).1 := by
  unfold refine
  split
  · rcases (b.span.tilt incline).moves_update (trial.tilt incline) with
      ⟨hbracketed, hbest, hother⟩ | ⟨hbracketed, hbest, hother⟩ | ⟨hbracketed, hbest, hother⟩
    · exact .rise hbracketed hbest hother
    · exact .turn hbracketed hbest hother
    · exact .pass hbracketed hbest hother
  · exact b.span.moves_update trial

/-! ## Ranges -/

/-- The step for the next trial inside a bracket, before it is moved into the range of steps:
midway where the bracket has not shrunk enough. -/
def halved (b : Bracket α) (span : Span α) (proposed : α) : α :=
  if 0.66 * b.previousWidth ≤ abs (span.other.position - span.best.position) then
    span.best.position + 0.5 * (span.other.position - span.best.position)
  else proposed

/-- Inside a bracket the next step lies in the range of steps and strictly inside the bracket.  The
search falls back to the best step only where the bracket has no room for another one. -/
theorem step_of_settle {sxtol : α} {frame : Frame α} {b b' : Bracket α} {early : Bool}
    {span : Span α} {proposed step clamped : α} (hspan : span.bracketed = true)
    (hclamped : clamped = smaller (larger (b.halved span proposed) frame.minStep) frame.maxStep)
    (h : b.settle sxtol frame early span proposed = .next b' step) :
    (step = clamped ∧ ¬ clamped ≤ smaller span.best.position span.other.position ∧
        ¬ larger span.best.position span.other.position ≤ clamped) ∨
      step = span.best.position ∧
        (clamped ≤ smaller span.best.position span.other.position ∨
          larger span.best.position span.other.position ≤ clamped ∨
          isNarrow sxtol (smaller span.best.position span.other.position)
            (larger span.best.position span.other.position) = true) := by
  have hstep : step =
      if (decide (clamped ≤ smaller span.best.position span.other.position) ||
        decide (larger span.best.position span.other.position ≤ clamped) ||
        isNarrow sxtol (smaller span.best.position span.other.position)
          (larger span.best.position span.other.position)) = true
      then span.best.position else clamped := by
    simp only [settle, hspan, if_true, Round.next.injEq] at h
    rw [hclamped]
    exact h.2.symm
  rw [hstep]
  split
  · next hstuck =>
    refine .inr ⟨rfl, ?_⟩
    rwa [Bool.or_eq_true, Bool.or_eq_true, decide_eq_true_eq, decide_eq_true_eq, or_assoc]
      at hstuck
  · next hfree =>
    rw [Bool.or_eq_true, Bool.or_eq_true, decide_eq_true_eq, decide_eq_true_eq, not_or,
      not_or] at hfree
    exact .inl ⟨rfl, hfree.1⟩

/-- Inside a bracket the range is the bracket, and the next step lies in the range of steps,
unless the search falls back to the best step. -/
theorem settle_bracketed {sxtol : α} {frame : Frame α} {b b' : Bracket α} {early : Bool}
    {span : Span α} {proposed step : α} (hspan : span.bracketed = true)
    (h : b.settle sxtol frame early span proposed = .next b' step) :
    b' =
      { span, early
        low := smaller span.best.position span.other.position
        high := larger span.best.position span.other.position
        width := abs (span.other.position - span.best.position)
        previousWidth := b.width } ∧
    (step = span.best.position ∨
      step = smaller (larger (b.halved span proposed) frame.minStep) frame.maxStep) := by
  have hstep := (step_of_settle hspan rfl h).symm.imp And.left And.left
  simp only [settle, hspan, if_true, Round.next.injEq] at h
  obtain ⟨rfl, -⟩ := h
  exact ⟨rfl, hstep⟩

/-- Without a bracket the range moves ahead of the step proposed. -/
theorem settle_open {sxtol : α} {frame : Frame α} {b b' : Bracket α} {early : Bool}
    {span : Span α} {proposed step : α} (hspan : span.bracketed = false)
    (h : b.settle sxtol frame early span proposed = .next b' step) :
    b' =
      { b with
        span, early
        low := proposed + 1.1 * (proposed - span.best.position)
        high := proposed + 4.0 * (proposed - span.best.position) } ∧
    step = smaller (larger proposed frame.minStep) frame.maxStep := by
  simp only [settle, hspan, Bool.false_eq_true, if_false, Round.next.injEq] at h
  obtain ⟨rfl, rfl⟩ := h
  exact ⟨rfl, rfl⟩

theorem span_of_settle {sxtol : α} {frame : Frame α} {b b' : Bracket α} {early : Bool}
    {span : Span α} {proposed step : α}
    (h : b.settle sxtol frame early span proposed = .next b' step) : b'.span = span := by
  cases hspan : span.bracketed with
  | true => rw [(settle_bracketed hspan h).1]
  | false => rw [(settle_open hspan h).1]

end Bracket

/-! ## Rounds -/

/-- The slope of the line of sufficient decrease. -/
def Frame.incline (c : Config α) (frame : Frame α) : α :=
  c.sftol * frame.slope

/-- The value on the line of sufficient decrease. -/
def Frame.target (c : Config α) (frame : Frame α) (position : α) : α :=
  frame.value + position * frame.incline c

namespace Bracket

/-- No trial has had both sufficient decrease and a rising slope, this one included. -/
def staysEarly (c : Config α) (frame : Frame α) (b : Bracket α) (trial : Sample α) : Bool :=
  b.early &&
    !(decide (trial.value ≤ frame.target c trial.position) && decide (0 ≤ trial.slope))

/-- The line of sufficient decrease is taken off the function. -/
def tilts (c : Config α) (frame : Frame α) (b : Bracket α) (trial : Sample α) : Bool :=
  b.staysEarly c frame trial && decide (trial.value ≤ b.span.best.value) &&
    decide (frame.target c trial.position < trial.value)

/-- What is known where another round follows: every test has failed. -/
structure Proceeds (c : Config α) (frame : Frame α) (b : Bracket α) (trial : Sample α) :
    Prop where
  notConverged : trial.value ≤ frame.target c trial.position →
    ¬ abs trial.slope ≤ c.curvatureTolerance * -frame.slope
  above : b.span.bracketed = true → ¬ trial.position ≤ b.low
  below : b.span.bracketed = true → ¬ b.high ≤ trial.position
  wide : b.span.bracketed = true → ¬ b.high - b.low ≤ c.sxtol * b.high
  notGreatest : trial.value ≤ frame.target c trial.position → trial.slope ≤ frame.incline c →
    (trial.position == frame.maxStep) = false
  notLeast : frame.target c trial.position < trial.value →
    (trial.position == frame.minStep) = false

/-- Where another round follows, every test has failed, and the trial has become one of the
ends. -/
theorem advance_eq_next {c : Config α} {frame : Frame α} {b b' : Bracket α} {trial : Sample α}
    {step : α} (h : b.advance c frame trial = .next b' step) :
    b.Proceeds c frame trial ∧
      b.settle c.sxtol frame (b.staysEarly c frame trial)
        (b.refine (b.tilts c frame trial) (frame.incline c) trial).1
        (b.refine (b.tilts c frame trial) (frame.incline c) trial).2 = .next b' step := by
  unfold advance at h
  dsimp only at h
  split at h
  · cases h
  · next hconverged =>
    split at h
    · cases h
    · next hends =>
      split at h
      · cases h
      · next hnarrow =>
        split at h
        · cases h
        · next hgreatest =>
          split at h
          · cases h
          · next hleast =>
            refine ⟨⟨?_, ?_, ?_, ?_, ?_, ?_⟩, h⟩
            · intro hvalue hslope
              simp only [Frame.target, Frame.incline] at hvalue
              exact hconverged (by simp [hvalue, hslope])
            · intro hbracketed hle
              exact hends (by simp [hbracketed, hle])
            · intro hbracketed hle
              exact hends (by simp [hbracketed, hle])
            · intro hbracketed hle
              exact hnarrow (by simp [hbracketed, isNarrow, hle])
            · intro hvalue hslope
              rw [← Bool.not_eq_true]
              intro heq
              simp only [Frame.target, Frame.incline] at hvalue hslope
              exact hgreatest (by simp [heq, hvalue, hslope])
            · intro hvalue
              rw [← Bool.not_eq_true]
              intro heq
              simp only [Frame.target, Frame.incline] at hvalue
              exact hleast (by simp [heq, hvalue])

end Bracket

namespace Run

/-- A search that goes on has gone through a round. -/
theorem answer_eq_next {c : Config α} (hcubic : c.lineSearch = .cubic) {run run' : Run α}
    {value slope : α} (h : run.answer c value slope = .next run') :
    ∃ bracket step,
      run.bracket.advance c run.frame ⟨run.step, value, slope⟩ = .next bracket step ∧
      run' = { run with step, trials := run.trials + 1, bracket } := by
  rw [answer, if_pos hcubic] at h
  unfold enclose at h
  dsimp only at h
  split at h
  · cases h
  · split at h
    · cases h
    · cases h
  · next bracket step hround =>
    split at h
    · cases h
    · cases h
      exact ⟨bracket, step, hround, rfl⟩

/-- A search that backtracks goes on with a shorter step, where the value has not decreased
sufficiently, a trial is left and the shorter step is not below the least one. -/
theorem backtrack_eq_next {c : Config α} (hcubic : c.lineSearch ≠ .cubic) {run run' : Run α}
    {value slope : α} (h : run.answer c value slope = .next run') :
    run.hasDecreased c value = false ∧ isExhausted c (run.trials + 1) = false ∧
      ¬ run.shorten c value < run.frame.minStep ∧
      run' = { run with step := run.shorten c value, trials := run.trials + 1 } := by
  rw [answer, if_neg hcubic] at h
  unfold backtrack at h
  dsimp only at h
  split at h
  · cases h
  · next hdecreased =>
    split at h
    · cases h
    · next hexhausted =>
      split at h
      · cases h
      · next hleast =>
        cases h
        exact ⟨(Bool.not_eq_true _).mp hdecreased, (Bool.not_eq_true _).mp hexhausted, hleast, rfl⟩

/-- A search of either kind goes on only while a trial is left. -/
theorem isExhausted_of_next {c : Config α} {run run' : Run α} {value slope : α}
    (h : run.answer c value slope = .next run') : isExhausted c (run.trials + 1) = false := by
  by_cases hcubic : c.lineSearch = .cubic
  · rw [answer, if_pos hcubic] at h
    unfold enclose at h
    dsimp only at h
    split at h
    · cases h
    · split at h
      · cases h
      · cases h
    · split at h
      · cases h
      · next hexhausted => exact (Bool.not_eq_true _).mp hexhausted
  · exact (backtrack_eq_next hcubic h).2.1

/-- A search that goes on keeps what it knew before its first trial, and counts its trials. -/
theorem kept_of_next {c : Config α} {run run' : Run α} {value slope : α}
    (h : run.answer c value slope = .next run') :
    run'.frame = run.frame ∧ run'.reference = run.reference ∧ run'.trials = run.trials + 1 := by
  by_cases hcubic : c.lineSearch = .cubic
  · obtain ⟨-, -, -, rfl⟩ := answer_eq_next hcubic h
    exact ⟨rfl, rfl, rfl⟩
  · obtain ⟨-, -, -, rfl⟩ := backtrack_eq_next hcubic h
    exact ⟨rfl, rfl, rfl⟩

end Run

/-! ## Line searches -/

/-- A line search after the answer of its run. -/
def LineSearch.take (search : LineSearch α) (run : Run α) : Answer α → LineSearch α
  | .next run => { search with state := .running run }
  | .accepted none => { search with state := .ended run.step .converged }
  | .accepted (some reason) => { search with state := .ended run.step (.warning reason) }
  | .failed step reason => { search with state := .ended step (.failure reason) }

/-- A line search in progress answers what its run answers. -/
theorem LineSearch.iterate_of_running {search : LineSearch α} {run : Run α}
    (h : search.state = .running run) (value slope : α) :
    search.iterate value slope = search.take run (run.answer search.config value slope) := by
  unfold iterate
  rw [h]
  dsimp only
  cases run.answer search.config value slope with
  | next run => rfl
  | accepted remark => cases remark <;> rfl
  | failed step reason => rfl

end Descent
