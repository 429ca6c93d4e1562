/-
# The two tests of sufficient decrease

The search that brackets tests for sufficient decrease in two places.  A round compares the value
with the line of sufficient decrease, whose slope is the tolerance times the slope at step zero.
Where it stops without having converged, the step is accepted or not by a second test, which
multiplies the step and the tolerance first.  The two products are rounded differently, so a value
between them passes the first test and not the second one.

* `Run.answer_of_stopped` : the second test decides;
* `LineSearch.frame_answered` : both tests start from the value and slope at step zero;
* `LineSearch.warns_iff_of_stopped` : the verdict, and which values are safe from rounding;
* `LineSearch.safe_step_warns`, `LineSearch.sufficient_step_fails` : a step that is accepted, and
  one that is not.
-/
import Descent.Proofs.Binary.Errors
import Descent.Proofs.Nesting

namespace Descent

open Scalar MeasuredScalar

variable {α : Type} [Scalar α]

/-- Where a round stops, the second test decides. -/
theorem Run.answer_of_stopped {c : Config α} (hcubic : c.lineSearch = .cubic) {run : Run α}
    {value slope : α} {reason : StopReason}
    (h : run.bracket.advance c run.frame ⟨run.step, value, slope⟩ = .stopped reason) :
    run.answer c value slope =
      if value ≤ run.frame.value + run.step * c.sftol * run.frame.slope then
        .accepted (some reason)
      else .failed run.step reason := by
  rw [answer, if_pos hcubic]
  unfold enclose
  rw [h]

namespace LineSearch

/-- What a search knows before its first trial it knows to its end. -/
theorem frame_answered {s : LineSearch α} {frame : Frame α}
    (hstart : ∀ run, s.state = .running run → run.frame = frame) {answers : Nat → α × α} (k : Nat) :
    ∀ run, (s.answered answers k).state = .running run → run.frame = frame := by
  induction k with
  | zero => exact hstart
  | succ k ih =>
    intro run' hrun'
    obtain ⟨run, hrun, hanswer⟩ := exists_of_answered hrun'
    rw [(Run.kept_of_next hanswer).1]
    exact ih run hrun

/-- **Two tests.**  A search that brackets has been started and told any number of answers, and a
round about its next answer stops for a reason, which may be that the value is below the line of
sufficient decrease at the greatest step.

* The search ends there with a warning if the value passes the second test, and with a failure
  otherwise.
* It fails with a value that passes the first test only where the bound of the second test is
  not as high as that of the first one.
* A value that lies below the exact line of sufficient decrease by the error of a product of three
  factors passes it. -/
theorem warns_iff_of_stopped [MeasuredScalar α] {s₀ s : LineSearch α}
    (hcubic : s₀.config.lineSearch = .cubic) {value slope step minStep maxStep : α}
    (hstart : s₀.start value slope step minStep maxStep = .ok s) (answers : Nat → α × α) {k : Nat}
    {run : Run α} (hrun : (s.answered answers k).state = .running run) {value' slope' : α}
    {reason : StopReason}
    (hstop : run.bracket.advance s₀.config ⟨value, slope, minStep, maxStep⟩
      ⟨run.step, value', slope'⟩ = .stopped reason) :
    let after := (s.answered answers k).iterate value' slope'
    let product := run.step * s₀.config.sftol * slope
    (after.state = .ended run.step (.warning reason) ↔ value' ≤ value + product) ∧
      (after.state = .ended run.step (.failure reason) ↔ ¬ value' ≤ value + product) ∧
      (value' ≤ value + run.step * (s₀.config.sftol * slope) →
        after.state = .ended run.step (.failure reason) →
        ¬ value + run.step * (s₀.config.sftol * slope) ≤ value + product) ∧
      (isFinite value = true → isFinite value' = true → isFinite product = true →
        toReal value' + error run.step s₀.config.sftol slope ≤
          toReal value + toReal run.step * toReal s₀.config.sftol * toReal slope →
        after.state = .ended run.step (.warning reason)) := by
  obtain ⟨first, hfirst, hs⟩ := start_eq_ok_iff.mp hstart
  have hconfig : (s.answered answers k).config = s₀.config := by
    rw [answered_config, hs]
  have hframe : run.frame = ⟨value, slope, minStep, maxStep⟩ := by
    refine frame_answered (fun run hrun => ?_) k run hrun
    rw [hs] at hrun
    cases hrun
    obtain ⟨-, -, -, -, rfl⟩ := Run.start_eq_ok_iff.mp hfirst
    rfl
  have hafter : ((s.answered answers k).iterate value' slope').state =
      if value' ≤ value + run.step * s₀.config.sftol * slope then
        .ended run.step (.warning reason)
      else .ended run.step (.failure reason) := by
    rw [← hframe] at hstop
    rw [iterate_of_running hrun, hconfig, Run.answer_of_stopped hcubic hstop, hframe]
    split
    · rfl
    · rfl
  intro after product
  have hwarns : after.state = .ended run.step (.warning reason) ↔ value' ≤ value + product := by
    rw [hafter]
    by_cases hle : value' ≤ value + run.step * s₀.config.sftol * slope
    · rw [if_pos hle]
      exact iff_of_true rfl hle
    · rw [if_neg hle]
      exact iff_of_false (by rintro ⟨⟩) hle
  have hfails : after.state = .ended run.step (.failure reason) ↔ ¬ value' ≤ value + product := by
    rw [hafter]
    by_cases hle : value' ≤ value + run.step * s₀.config.sftol * slope
    · rw [if_pos hle]
      exact iff_of_false (by rintro ⟨⟩) (not_not.mpr hle)
    · rw [if_neg hle]
      exact iff_of_true rfl hle
  refine ⟨hwarns, hfails, fun hfirst hfailure hle => ?_, fun hvalue hvalue' hproduct hbelow => ?_⟩
  · exact hfails.mp hfailure (OrderedScalar.le_trans hfirst hle)
  · exact hwarns.mpr (le_add_mul_mul hvalue' hvalue hproduct hbelow)

/-! ## A step that is accepted and one that is not -/

/-- Why the round about an answer stops, if it does. -/
def stopReason? (s : LineSearch α) (value slope : α) : Option StopReason :=
  match s.state with
  | .running run =>
    match run.bracket.advance s.config run.frame ⟨run.step, value, slope⟩ with
    | .stopped reason => some reason
    | _ => none
  | .ended _ _ => none

/-- The round about the first answer of a search stops. -/
theorem advance_of_stopReason? {s₀ s : LineSearch α} {value slope step minStep maxStep : α}
    (hstart : s₀.start value slope step minStep maxStep = .ok s) {value' slope' : α}
    {reason : StopReason} (h : s.stopReason? value' slope' = some reason) :
    ∃ run, s.state = .running run ∧ run.frame = ⟨value, slope, minStep, maxStep⟩ ∧
      run.step = smaller (larger step minStep) maxStep ∧
      run.bracket.advance s₀.config ⟨value, slope, minStep, maxStep⟩
        ⟨run.step, value', slope'⟩ = .stopped reason := by
  obtain ⟨first, hfirst, hs⟩ := start_eq_ok_iff.mp hstart
  obtain ⟨-, -, -, -, hfirst⟩ := Run.start_eq_ok_iff.mp hfirst
  have hrun : s.state = .running first := by rw [hs]
  have hconfig : s.config = s₀.config := by rw [hs]
  have hframe : first.frame = ⟨value, slope, minStep, maxStep⟩ := by rw [hfirst]
  refine ⟨first, hrun, hframe, by rw [hfirst], ?_⟩
  unfold stopReason? at h
  rw [hrun, hconfig] at h
  dsimp only at h
  rw [hframe] at h
  split at h
  · next hround =>
    cases h
    exact hround
  · cases h

/-- A line search in double precision with tolerances that are powers of two. -/
def dyadicCubic : LineSearch Float where
  config := { lineSearch := .cubic, sftol := 0.25, sgtol := some 0.5 }

/-- A line that descends by an eighth bounds a value of minus four, whatever the errors are. -/
theorem four_below_line : toReal (-4 : Float) + error (0.5 : Float) 0.25 (-1) ≤
    toReal (0 : Float) + toReal (0.5 : Float) * toReal (0.25 : Float) * toReal (-1 : Float) := by
  have hzero : toReal (0 : Float) = 0 := Binary.toReal_zero .positive
  have hhalf : toReal (0.5 : Float) = 1 / 2 := by
    rw [Binary.toReal_double (s := .positive) (m := 2 ^ 52) (e := -53) rfl (by decide)]
    show ((1 : ℤ) : ℝ) * _ = _
    norm_num
  have hquarter : toReal (0.25 : Float) = 1 / 4 := by
    rw [Binary.toReal_double (s := .positive) (m := 2 ^ 52) (e := -54) rfl (by decide)]
    show ((1 : ℤ) : ℝ) * _ = _
    norm_num
  have hone : toReal (-1 : Float) = -1 := by
    rw [Binary.toReal_double (s := .negative) (m := 2 ^ 52) (e := -52) rfl (by decide)]
    show ((-1 : ℤ) : ℝ) * _ = _
    norm_num
  have hfour : toReal (-4 : Float) = -4 := by
    rw [Binary.toReal_double (s := .negative) (m := 2 ^ 52) (e := -50) rfl (by decide)]
    show ((-1 : ℤ) : ℝ) * _ = _
    norm_num
  have hrelative : relativeError Float ≤ 1 / 4 := by
    have hbits : relativeError Float = (2 ^ 53)⁻¹ := Binary.roundoff_eq .binary64
    rw [hbits]
    norm_num
  have habsolute : absoluteError Float ≤ 1 / 2 := by
    have hhalves : absoluteError Float = Binary.unit .binary64 / 2 := Binary.halfUnit_eq .binary64
    have hunit : Binary.unit .binary64 ≤ 1 := by
      rw [Binary.unit_eq]
      exact zpow_le_one_of_nonpos₀ one_le_two (by decide)
    linarith
  have hnonneg : 0 ≤ relativeError Float := relativeError_nonneg
  rw [error, hzero, hhalf, hquarter, hone, hfour]
  norm_num
  nlinarith

/-- A value far below the line of sufficient decrease at the greatest step ends the search with a
warning. -/
theorem safe_step_warns : ∃ s, dyadicCubic.start 0 (-1) 0.5 0 0.5 = .ok s ∧
    (s.iterate (-4) (-1)).state = .ended 0.5 (.warning .atMaximumStep) := by
  have hany : (dyadicCubic.start 0 (-1) 0.5 0 0.5).toOption.any
      (fun s => s.stopReason? (-4) (-1) == some .atMaximumStep) = true := by
    decide +kernel
  obtain ⟨s, hstart, hreason⟩ := exists_ok_of_any hany
  obtain ⟨run, hrun, -, hstep, hstop⟩ := advance_of_stopReason? hstart (beq_iff_eq.mp hreason)
  have hhalf : run.step = 0.5 := by
    rw [hstep, larger_eq_left (by decide +kernel) (by decide +kernel),
      smaller_eq_right (by decide +kernel)]
  obtain ⟨-, -, -, hsafe⟩ :=
    warns_iff_of_stopped rfl hstart (fun _ => (0, 0)) (k := 0) hrun hstop
  rw [hhalf] at hsafe
  exact ⟨s, hstart, hsafe (by decide +kernel) (by decide +kernel) (by decide +kernel)
    four_below_line⟩

/-- **A step that is refused.**  With the default tolerances the value at the greatest step passes
the first test, and the search fails. -/
theorem sufficient_step_fails : ∃ s, doubleCubic.start 0 (-5) 0.3 0 0.3 = .ok s ∧
    s.stopReason? (-0.00015) (-5) = some .atMaximumStep ∧
    (-0.00015 : Float) ≤ Frame.target doubleCubic.config ⟨0, -5, 0, 0.3⟩ 0.3 ∧
    (s.iterate (-0.00015) (-5)).state = .ended 0.3 (.failure .atMaximumStep) := by
  have hany : (doubleCubic.start 0 (-5) 0.3 0 0.3).toOption.any
      (fun s => s.stopReason? (-0.00015) (-5) == some .atMaximumStep) = true := by
    decide +kernel
  obtain ⟨s, hstart, hreason⟩ := exists_ok_of_any hany
  obtain ⟨run, hrun, hframe, hstep, hstop⟩ :=
    advance_of_stopReason? hstart (beq_iff_eq.mp hreason)
  have hgreatest : run.step = 0.3 := by
    rw [hstep, larger_eq_left (by decide +kernel) (by decide +kernel),
      smaller_eq_right (by decide +kernel)]
  have hconfig : s.config = doubleCubic.config := by
    obtain ⟨-, -, rfl⟩ := start_eq_ok_iff.mp hstart
    rfl
  refine ⟨s, hstart, beq_iff_eq.mp hreason, by decide +kernel, ?_⟩
  rw [← hframe] at hstop
  rw [iterate_of_running hrun, hconfig, Run.answer_of_stopped rfl hstop, hframe, hgreatest,
    if_neg (by decide +kernel)]
  rfl

end LineSearch

end Descent
