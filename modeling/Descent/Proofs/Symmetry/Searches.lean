/-
# Line searches and raised values

A line search compares values with one another and looks at their differences.  In exact
arithmetic a number added to all of them changes nothing but the values that are kept.

* `Sample.lift`, `Bracket.lift`, `Run.lift` : what a search keeps, with its values raised;
* `nextStep_lift`, `advance_lift` : a round of the search that brackets;
* `start_lift`, `answer_lift` : all line searches;
* `remember_lift` : the values that are looked back on.
-/
import Mathlib
import Descent.LineSearch
import Descent.Proofs.Exact.Strict

namespace Descent

open Scalar ExactScalar StrictScalar

variable {α : Type} [Scalar α] [ExactScalar α]

/-! ## Raised values -/

/-- A sample with its value raised. -/
def Sample.lift (d : ℝ) (s : Sample α) : Sample α :=
  { s with value := s.value + ofReal d }

/-- A span with its values raised. -/
def Span.lift (d : ℝ) (s : Span α) : Span α :=
  { s with best := s.best.lift d, other := s.other.lift d }

/-- A frame with its value raised. -/
def Frame.lift (d : ℝ) (frame : Frame α) : Frame α :=
  { frame with value := frame.value + ofReal d }

/-- A bracket with its values raised. -/
def Bracket.lift (d : ℝ) (b : Bracket α) : Bracket α :=
  { b with span := b.span.lift d }

/-- A round with its values raised. -/
def Round.lift (d : ℝ) : Round α → Round α
  | .next b step => .next (b.lift d) step
  | .converged => .converged
  | .stopped reason => .stopped reason

/-- A run with its values raised. -/
def Run.lift (d : ℝ) (run : Run α) : Run α :=
  { run with
    frame := run.frame.lift d
    reference := run.reference + ofReal d
    bracket := run.bracket.lift d }

/-- An answer with its values raised. -/
def Answer.lift (d : ℝ) : Answer α → Answer α
  | .next run => .next (run.lift d)
  | .accepted remark => .accepted remark
  | .failed step reason => .failed step reason

theorem decide_lift_le (a b : α) (d : ℝ) :
    decide (a + ofReal d ≤ b + ofReal d) = decide (a ≤ b) :=
  decide_eq_decide.mpr (lift_le_lift d)

theorem decide_lift_lt (a b : α) (d : ℝ) :
    decide (a + ofReal d < b + ofReal d) = decide (a < b) :=
  decide_eq_decide.mpr (lift_lt_lift d)

theorem slopeAgreement_lift (s : Span α) (trial : Sample α) (d : ℝ) :
    (s.lift d).slopeAgreement (trial.lift d) = s.slopeAgreement trial := by
  rfl

/-- The ends after a trial. -/
theorem update_lift (s : Span α) (trial : Sample α) (d : ℝ) :
    (s.lift d).update (trial.lift d) = (s.update trial).lift d := by
  unfold Span.update
  rw [slopeAgreement_lift]
  simp only [Span.lift, Sample.lift, lift_lt_lift]
  split
  · rfl
  · split
    · rfl
    · rfl

variable [StrictScalar α]

/-! ## Rounds -/

theorem tilt_lift (incline : α) (s : Sample α) (d : ℝ) :
    (s.lift d).tilt incline = (s.tilt incline).lift d := by
  simp only [Sample.tilt, Sample.lift, lift_sub]

theorem untilt_lift (incline : α) (s : Sample α) (d : ℝ) :
    (s.lift d).untilt incline = (s.untilt incline).lift d := by
  simp only [Sample.untilt, Sample.lift, lift_add]

theorem cubicSum_lift (a b : Sample α) (slope₁ slope₂ : α) (d : ℝ) :
    (a.lift d).cubicSum (b.lift d) slope₁ slope₂ = a.cubicSum b slope₁ slope₂ := by
  simp only [Sample.cubicSum, Sample.lift, lift_sub_lift]

theorem stepAfterRise_lift (best trial : Sample α) (d : ℝ) :
    Span.stepAfterRise (best.lift d) (trial.lift d) = Span.stepAfterRise best trial := by
  have hrise : (best.lift d).value - (trial.lift d).value = best.value - trial.value :=
    lift_sub_lift best.value trial.value d
  unfold Span.stepAfterRise
  rw [cubicSum_lift, hrise]
  rfl

theorem stepAfterTurn_lift (best trial : Sample α) (d : ℝ) :
    Span.stepAfterTurn (best.lift d) (trial.lift d) = Span.stepAfterTurn best trial := by
  unfold Span.stepAfterTurn
  rw [cubicSum_lift]
  rfl

/-- The next trial after the slope has become less steep. -/
theorem stepAfterFlattening_lift (s : Span α) (trial : Sample α) (low high : α) (d : ℝ) :
    (s.lift d).stepAfterFlattening (trial.lift d) low high =
      s.stepAfterFlattening trial low high := by
  have hsum (slope₁ slope₂ : α) : (s.lift d).best.cubicSum (trial.lift d) slope₁ slope₂ =
      s.best.cubicSum trial slope₁ slope₂ := cubicSum_lift s.best trial slope₁ slope₂ d
  unfold Span.stepAfterFlattening
  dsimp only
  rw [hsum]
  rfl

theorem stepAfterSteepening_lift (s : Span α) (trial : Sample α) (low high : α) (d : ℝ) :
    (s.lift d).stepAfterSteepening (trial.lift d) low high =
      s.stepAfterSteepening trial low high := by
  have hsum (slope₁ slope₂ : α) : (trial.lift d).cubicSum (s.lift d).other slope₁ slope₂ =
      trial.cubicSum s.other slope₁ slope₂ := cubicSum_lift trial s.other slope₁ slope₂ d
  unfold Span.stepAfterSteepening
  dsimp only
  rw [hsum]
  rfl

/-- The next trial. -/
theorem nextStep_lift (s : Span α) (trial : Sample α) (low high : α) (d : ℝ) :
    (s.lift d).nextStep (trial.lift d) low high = s.nextStep trial low high := by
  have hrise : (s.lift d).best.value < (trial.lift d).value ↔ s.best.value < trial.value :=
    lift_lt_lift d
  unfold Span.nextStep
  refine if_congr hrise (stepAfterRise_lift _ _ d) ?_
  refine if_congr Iff.rfl (stepAfterTurn_lift _ _ d) ?_
  exact if_congr Iff.rfl (stepAfterFlattening_lift _ _ _ _ d)
    (stepAfterSteepening_lift _ _ _ _ d)

/-- The ends and the next trial after a round. -/
theorem refine_lift (b : Bracket α) (tilted : Bool) (incline : α) (trial : Sample α) (d : ℝ) :
    (b.lift d).refine tilted incline (trial.lift d) =
      ((b.refine tilted incline trial).1.lift d, (b.refine tilted incline trial).2) := by
  have htilt : (b.lift d).span.tilt incline = (b.span.tilt incline).lift d := by
    simp only [Bracket.lift, Span.tilt, Span.lift, tilt_lift]
  have huntilt (s : Span α) : (s.lift d).untilt incline = (s.untilt incline).lift d := by
    simp only [Span.untilt, Span.lift, untilt_lift]
  unfold Bracket.refine
  split
  · rw [htilt, tilt_lift]
    dsimp only
    rw [update_lift, huntilt, nextStep_lift]
    rfl
  · dsimp only
    rw [Bracket.lift, update_lift, nextStep_lift]

omit [StrictScalar α] in
theorem settle_lift (sxtol : α) (frame : Frame α) (b : Bracket α) (early : Bool) (span : Span α)
    (proposed : α) (d : ℝ) :
    (b.lift d).settle sxtol (frame.lift d) early (span.lift d) proposed =
      (b.settle sxtol frame early span proposed).lift d := by
  unfold Bracket.settle
  dsimp only
  rw [apply_ite (Round.lift d)]
  rfl

/-- A round. -/
theorem advance_lift (c : Config α) (frame : Frame α) (b : Bracket α) (trial : Sample α) (d : ℝ) :
    (b.lift d).advance c (frame.lift d) (trial.lift d) = (b.advance c frame trial).lift d := by
  have htarget (incline : α) : (frame.lift d).value + (trial.lift d).position * incline =
      frame.value + trial.position * incline + ofReal d :=
    lift_add frame.value (trial.position * incline) d
  have hvalue : (trial.lift d).value = trial.value + ofReal d := rfl
  have hbest : (b.lift d).span.best.value = b.span.best.value + ofReal d := rfl
  unfold Bracket.advance
  dsimp only
  rw [htarget, hvalue, hbest, decide_lift_le, decide_lift_le, decide_lift_lt, refine_lift,
    settle_lift, apply_ite (Round.lift d), apply_ite (Round.lift d), apply_ite (Round.lift d),
    apply_ite (Round.lift d), apply_ite (Round.lift d)]
  rfl

/-! ## Searches -/

omit [StrictScalar α] in
/-- The greatest of raised values. -/
theorem greatestOf_lift (value : α) (recent : List α) (d : ℝ) :
    greatestOf (value + ofReal d) (recent.map (· + ofReal d)) =
      greatestOf value recent + ofReal d := by
  induction recent with
  | nil => rfl
  | cons v recent ih =>
    have hgreatest (a : α) (rest : List α) : greatestOf a (v :: rest) =
        if greatestOf a rest < v then v else greatestOf a rest := rfl
    have hless : greatestOf (value + ofReal d) (recent.map (· + ofReal d)) < v + ofReal d ↔
        greatestOf value recent < v := by
      rw [ih]
      exact lift_lt_lift d
    rw [hgreatest, apply_ite (· + ofReal d), ← ih]
    exact if_congr hless rfl rfl

omit [StrictScalar α] in
/-- The values that are looked back on. -/
theorem remember_lift (c : Config α) (value : α) (recent : List α) (d : ℝ) :
    remember c (value + ofReal d) (recent.map (· + ofReal d)) =
      (remember c value recent).map (· + ofReal d) := by
  unfold remember
  rw [pushRecent_map (· + ofReal d) c.window value recent]
  split
  · rfl
  · rfl

namespace Run

omit [StrictScalar α] in
/-- A search starts with raised values as it does with the values themselves. -/
theorem start_lift (c : Config α) (recent : List α) (value slope step minStep maxStep : α) (d : ℝ) :
    Run.start c (recent.map (· + ofReal d)) (value + ofReal d) slope step minStep maxStep =
      (Run.start c recent value slope step minStep maxStep).map (Run.lift d) := by
  unfold Run.start
  rw [apply_ite (Except.map (Run.lift d)), apply_ite (Except.map (Run.lift d)), greatestOf_lift]
  refine if_congr Iff.rfl rfl (if_congr Iff.rfl rfl ?_)
  have hreference (p : Prop) [Decidable p] (a b : α) :
      (if p then a + ofReal d else b + ofReal d) = (if p then a else b) + ofReal d :=
    (apply_ite (· + ofReal d) p a b).symm
  dsimp only
  rw [hreference]
  rfl

/-- Raised values have decreased as the values themselves. -/
theorem hasDecreased_lift (c : Config α) (run : Run α) (value : α) (d : ℝ) :
    (run.lift d).hasDecreased c (value + ofReal d) = run.hasDecreased c value := by
  have hline : (run.lift d).reference + c.sftol * (run.lift d).step * (run.lift d).frame.slope =
      run.reference + c.sftol * run.step * run.frame.slope + ofReal d :=
    lift_add run.reference _ d
  unfold hasDecreased
  rw [hline, decide_lift_le]

/-- The shorter step is the same. -/
theorem shorten_lift (c : Config α) (run : Run α) (value : α) (d : ℝ) :
    (run.lift d).shorten c (value + ofReal d) = run.shorten c value := by
  have hchange : value + ofReal d - (run.lift d).frame.value = value - run.frame.value :=
    lift_sub_lift value run.frame.value d
  unfold shorten
  rw [hchange]
  rfl

/-- A search that backtracks answers as before. -/
theorem backtrack_lift (c : Config α) (run : Run α) (value : α) (d : ℝ) :
    (run.lift d).backtrack c (value + ofReal d) = (run.backtrack c value).lift d := by
  unfold backtrack
  rw [hasDecreased_lift, shorten_lift]
  dsimp only
  rw [apply_ite (Answer.lift d), apply_ite (Answer.lift d), apply_ite (Answer.lift d)]
  rfl

/-- A search that brackets answers as before. -/
theorem enclose_lift (c : Config α) (run : Run α) (value slope : α) (d : ℝ) :
    (run.lift d).enclose c (value + ofReal d) slope = (run.enclose c value slope).lift d := by
  have hround : (run.lift d).bracket.advance c (run.lift d).frame
      ⟨(run.lift d).step, value + ofReal d, slope⟩ =
        (run.bracket.advance c run.frame ⟨run.step, value, slope⟩).lift d :=
    advance_lift c run.frame run.bracket ⟨run.step, value, slope⟩ d
  have hline : (run.lift d).frame.value + (run.lift d).step * c.sftol * (run.lift d).frame.slope =
      run.frame.value + run.step * c.sftol * run.frame.slope + ofReal d :=
    lift_add run.frame.value _ d
  unfold enclose
  rw [hround, hline]
  cases run.bracket.advance c run.frame ⟨run.step, value, slope⟩ with
  | converged => rfl
  | stopped reason =>
    dsimp only [Round.lift]
    rw [apply_ite (Answer.lift d)]
    exact if_congr (lift_le_lift d) rfl rfl
  | next bracket step =>
    dsimp only [Round.lift]
    rw [apply_ite (Answer.lift d)]
    rfl

/-- **Raised values.**  A line search answers a value and a slope as it would without the number
added to all values. -/
theorem answer_lift (c : Config α) (run : Run α) (value slope : α) (d : ℝ) :
    (run.lift d).answer c (value + ofReal d) slope = (run.answer c value slope).lift d := by
  unfold answer
  rw [enclose_lift, backtrack_lift, apply_ite (Answer.lift d)]

end Run

end Descent
