/-
# Decrease in a line search

A line search only proposes steps that are not negative, so whatever it accepts is at
most the value that decrease is measured from.

* `Frame.Descends`, `Run.Sound` : what a line search preserves;
* `Run.start_eq_ok_iff` : when a search starts, and how;
* `Run.sound_start`, `Run.Sound.next` : the first step and all others;
* `Run.Sound.le_of_accepted` : an accepted value is not above the reference.
-/
import Descent.LineSearch
import Descent.Proofs.Arithmetic

namespace Descent

open Scalar OrderedScalar RoundedScalar

variable {α : Type} [Scalar α]

/-! ## Steps -/

/-- The function descends at step zero and the range of admissible steps is not empty. -/
structure Frame.Descends (frame : Frame α) : Prop where
  /-- The slope at step zero is negative. -/
  slope : frame.slope < 0
  /-- The least admissible step is not negative. -/
  minStep : 0 ≤ frame.minStep
  /-- The range is in order. -/
  range : frame.minStep ≤ frame.maxStep

/-- No step that the search keeps is negative. -/
structure Span.Forward (span : Span α) : Prop where
  /-- The best step is not negative. -/
  best : ¬ span.best.position < 0
  /-- The other end is not negative. -/
  other : ¬ span.other.position < 0

section Steps

variable [OrderedScalar α]

/-- A step that is moved into the range of admissible steps is not negative. -/
theorem Frame.Descends.step_not_neg {frame : Frame α} (h : frame.Descends) (step : α) :
    ¬ smaller (larger step frame.minStep) frame.maxStep < 0 := by
  rcases smaller_eq_or (larger step frame.minStep) frame.maxStep with heq | heq
  · rw [heq]
    exact not_neg_of_not_lt h.minStep (not_lt_larger step frame.minStep)
  · rw [heq]
    exact not_lt_of_le (le_trans h.minStep h.range)

omit [OrderedScalar α] in
/-- A trial at a step that is not negative keeps the ends so. -/
theorem Span.Forward.update {span : Span α} (h : span.Forward) {trial : Sample α}
    (htrial : ¬ trial.position < 0) : (span.update trial).Forward := by
  unfold Span.update
  split
  · exact ⟨h.best, htrial⟩
  · split
    · exact ⟨htrial, h.best⟩
    · exact ⟨htrial, h.other⟩

omit [OrderedScalar α] in
theorem Bracket.forward_refine {b : Bracket α} (h : b.span.Forward) {trial : Sample α}
    (htrial : ¬ trial.position < 0) (tilted : Bool) (incline : α) :
    (b.refine tilted incline trial).1.Forward := by
  unfold Bracket.refine
  split
  · -- a line changes values and slopes, but no position
    have htilted : (b.span.tilt incline).Forward := ⟨h.best, h.other⟩
    have htrial' : ¬ (trial.tilt incline).position < 0 := htrial
    have hupdated := htilted.update htrial'
    exact ⟨hupdated.best, hupdated.other⟩
  · exact h.update htrial

/-- The step after a round is not negative, and neither are the ends. -/
theorem Bracket.forward_settle {frame : Frame α} (hframe : frame.Descends) {span : Span α}
    (hspan : span.Forward) {sxtol : α} {b b' : Bracket α} {early : Bool} {proposed step : α}
    (h : b.settle sxtol frame early span proposed = .next b' step) :
    b'.span.Forward ∧ ¬ step < 0 := by
  unfold Bracket.settle at h
  split at h
  · -- the step is halved or not, and falls back to the best one or not
    have hstep (stuck : Bool) (halved : α) :
        ¬ (if stuck = true then span.best.position
          else smaller (larger halved frame.minStep) frame.maxStep) < 0 := by
      split
      · exact hspan.best
      · exact hframe.step_not_neg halved
    cases h
    exact ⟨hspan, hstep _ _⟩
  · cases h
    exact ⟨hspan, hframe.step_not_neg proposed⟩

/-- A round that asks for another trial keeps all steps from being negative. -/
theorem Bracket.forward_advance {c : Config α} {frame : Frame α} (hframe : frame.Descends)
    {b b' : Bracket α} (hb : b.span.Forward) {trial : Sample α} (htrial : ¬ trial.position < 0)
    {step : α} (h : b.advance c frame trial = .next b' step) : b'.span.Forward ∧ ¬ step < 0 := by
  unfold Bracket.advance at h
  simp only at h
  split at h
  · cases h
  · split at h
    · cases h
    · split at h
      · cases h
      · split at h
        · cases h
        · split at h
          · cases h
          · exact forward_settle hframe (forward_refine hb htrial _ _) h

omit [OrderedScalar α] in
/-- A round that ends the search without a reason has found sufficient decrease and a small
slope. -/
theorem Bracket.meets_of_converged {c : Config α} {frame : Frame α} {b : Bracket α}
    {trial : Sample α} (h : b.advance c frame trial = .converged) :
    trial.value ≤ frame.value + trial.position * (c.sftol * frame.slope) ∧
      abs trial.slope ≤ c.curvatureTolerance * -frame.slope := by
  unfold Bracket.advance at h
  simp only at h
  split at h
  · next hmeets =>
    rwa [Bool.and_eq_true, decide_eq_true_eq, decide_eq_true_eq] at hmeets
  · -- no other exit of a round claims convergence
    split at h
    · cases h
    · split at h
      · cases h
      · split at h
        · cases h
        · split at h
          · cases h
          · unfold settle at h
            split at h <;> cases h

omit [OrderedScalar α] in
/-- A round that ends with a small slope has found sufficient decrease. -/
theorem Bracket.le_of_converged {c : Config α} {frame : Frame α} {b : Bracket α}
    {trial : Sample α} (h : b.advance c frame trial = .converged) :
    trial.value ≤ frame.value + trial.position * (c.sftol * frame.slope) :=
  (meets_of_converged h).1

end Steps

namespace Run

/-! ## Line searches -/

/-- What a line search preserves: its frame descends and none of its steps is
negative. -/
structure Sound (run : Run α) : Prop where
  /-- The frame descends. -/
  frame : run.frame.Descends
  /-- The step to evaluate is not negative. -/
  step : ¬ run.step < 0
  /-- The ends of the bracket are not negative. -/
  ends : run.bracket.span.Forward

/-- The value that decrease is measured from at the start of a search. -/
def referenceFor (c : Config α) (recent : List α) (value : α) : α :=
  if c.lineSearch = .nonmonotone then greatestOf value recent else value

/-- A search starts where the function descends and a positive step is admissible, and it starts
with the step moved into the range. -/
theorem start_eq_ok_iff {c : Config α} {recent : List α} {value slope step minStep maxStep : α}
    {run : Run α} :
    start c recent value slope step minStep maxStep = .ok run ↔
      slope < 0 ∧ 0 ≤ minStep ∧ minStep ≤ maxStep ∧ 0 < step ∧
        run =
          { frame := ⟨value, slope, minStep, maxStep⟩
            reference := referenceFor c recent value
            step := smaller (larger step minStep) maxStep
            trials := 0
            bracket := .start ⟨value, slope, minStep, maxStep⟩
              (smaller (larger step minStep) maxStep) } := by
  unfold start
  by_cases hslope : slope < 0
  · rw [if_neg (Classical.not_not.mpr hslope)]
    by_cases hrange : 0 ≤ minStep ∧ minStep ≤ maxStep ∧ 0 < step
    · obtain ⟨hleast, horder, hstep⟩ := hrange
      rw [if_neg (by simp [hleast, horder, hstep])]
      simp only [hslope, hleast, horder, hstep, true_and, Except.ok.injEq]
      exact eq_comm
    · rw [if_pos (by rwa [← Classical.not_and_iff_not_or_not, ← Classical.not_and_iff_not_or_not])]
      simp only [reduceCtorEq, false_iff]
      rintro ⟨-, hleast, horder, hstep, -⟩
      exact hrange ⟨hleast, horder, hstep⟩
  · rw [if_pos hslope]
    simp [hslope]

/-- A search that is not refused starts from its value and slope, and it is sound. -/
theorem sound_start [OrderedScalar α] {c : Config α} {recent : List α}
    {value slope step minStep maxStep : α} {run : Run α}
    (h : start c recent value slope step minStep maxStep = .ok run) :
    run.Sound ∧ run.frame.value = value ∧ run.reference = referenceFor c recent value := by
  obtain ⟨hslope, hleast, horder, -, rfl⟩ := start_eq_ok_iff.mp h
  have hframe : Frame.Descends ⟨value, slope, minStep, maxStep⟩ := ⟨hslope, hleast, horder⟩
  refine ⟨⟨hframe, hframe.step_not_neg step, ?_⟩, rfl, rfl⟩
  exact ⟨not_lt_self, not_lt_self⟩

/-- A search that goes on keeps its frame and its reference, and it stays sound. -/
theorem Sound.next [OrderedScalar α] {c : Config α} {run run' : Run α} (h : run.Sound)
    {value slope : α} (hanswer : run.answer c value slope = .next run') :
    run'.Sound ∧ run'.frame = run.frame ∧ run'.reference = run.reference := by
  unfold answer at hanswer
  split at hanswer
  · unfold enclose at hanswer
    simp only at hanswer
    split at hanswer
    · cases hanswer
    · split at hanswer <;> cases hanswer
    · next bracket step hround =>
      split at hanswer
      · cases hanswer
      · cases hanswer
        obtain ⟨hends, hstep⟩ := Bracket.forward_advance h.frame h.ends h.step hround
        exact ⟨⟨h.frame, hstep, hends⟩, rfl, rfl⟩
  · unfold backtrack at hanswer
    simp only at hanswer
    split at hanswer
    · cases hanswer
    · split at hanswer
      · cases hanswer
      · split at hanswer
        · cases hanswer
        · next hmin =>
          -- a shorter step is tried only if it is not below the least one
          cases hanswer
          exact ⟨⟨h.frame, not_neg_of_not_lt h.frame.minStep hmin, h.ends⟩, rfl, rfl⟩

/-- An accepted value is not above the value that decrease is measured from. -/
theorem Sound.le_of_accepted [RoundedScalar α] {c : Config α} (hsftol : ¬ c.sftol < 0)
    {run : Run α} (h : run.Sound) {value slope : α} {remark : Option StopReason}
    (hanswer : run.answer c value slope = .accepted remark) :
    value ≤ if c.lineSearch = .cubic then run.frame.value else run.reference := by
  have hslope : ¬ 0 < run.frame.slope := not_lt_of_le (le_of_lt h.frame.slope)
  -- the decrease that is asked for is never positive: step, tolerance and slope have signs
  unfold answer at hanswer
  split at hanswer
  · next hcubic =>
    rw [if_pos hcubic]
    unfold enclose at hanswer
    simp only at hanswer
    split at hanswer
    · next hround =>
      have hle := Bracket.le_of_converged hround
      exact le_of_le_add hle (mul_not_pos h.step (mul_not_pos hsftol hslope))
    · -- the bracket was given up, and the last value is tested once more
      split at hanswer
      · next hle =>
        exact le_of_le_add hle (mul_not_pos (mul_not_neg h.step hsftol) hslope)
      · cases hanswer
    · split at hanswer <;> cases hanswer
  · next hbacktrack =>
    rw [if_neg hbacktrack]
    rw [backtrack_eq_accepted_iff, hasDecreased, decide_eq_true_eq] at hanswer
    exact le_of_le_add hanswer.2 (mul_not_pos (mul_not_neg hsftol h.step) hslope)

end Run

/-- A search starts if its run does. -/
theorem LineSearch.start_eq_ok_iff {s₀ s : LineSearch α}
    {value slope step minStep maxStep : α} :
    s₀.start value slope step minStep maxStep = .ok s ↔
      ∃ run, Run.start s₀.config s₀.recent value slope step minStep maxStep = .ok run ∧
        s = { s₀ with state := .running run } := by
  unfold start
  cases Run.start s₀.config s₀.recent value slope step minStep maxStep with
  | error refusal =>
    constructor
    · rintro ⟨⟩
    · rintro ⟨-, ⟨⟩, -⟩
  | ok run =>
    constructor
    · rintro ⟨⟩
      exact ⟨run, rfl, rfl⟩
    · rintro ⟨-, ⟨⟩, rfl⟩
      rfl

end Descent
