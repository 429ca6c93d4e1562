/-
# The range of trial steps

In exact arithmetic a search never leaves the range of steps that it was given, whatever it is
told.  The search that brackets moves every step it proposes into the range, but falls back to
the best step so far where a bracket has no room left, and before any trial was better that is
step zero.  A bracket with an end there comes from trials with higher values alone.  The step
after such a trial lies strictly before it, so there is room.

* `radius_ofReal`, `stepAfterRise_lt` : the step after a higher value;
* `Run.exists_shorten` : the step of a search that backtracks;
* `Run.InRange` : what a search preserves;
* `Bracket.refine_from_origin`, `Bracket.admits_of_settle` : a bracket with an end at zero;
* `LineSearch.trial_steps_in_range` : all steps lie in the range.
-/
import Mathlib
import Descent.Proofs.Decrease
import Descent.Proofs.SearchEnds

namespace Descent

open Scalar ExactScalar StrictScalar

variable {α : Type} [Scalar α] [ExactScalar α] [StrictScalar α]

/-! ## The step after a higher value -/

/-- The radius of a cubic whose slope has real zeros. -/
theorem radius_ofReal {sum d g : ℝ} (hd : d < 0) (h : 0 ≤ sum ^ 2 - d * g) :
    Sample.radius (ofReal sum : α) (ofReal d) (ofReal g) = ofReal (√(sum ^ 2 - d * g)) := by
  let s := max (max |sum| |d|) |g|
  have hs : 0 < s := lt_max_of_lt_left (lt_max_of_lt_right (abs_pos.mpr hd.ne))
  have hscale : Sample.slopeScale (ofReal sum : α) (ofReal d) (ofReal g) = ofReal s := by
    simp only [Sample.slopeScale, ← ofReal_abs, larger_ofReal]
    rfl
  have hunits : sum / s * (sum / s) - d / s * (g / s) = (sum ^ 2 - d * g) / s ^ 2 := by
    field_simp
  have hdiscriminant : Sample.discriminant (ofReal sum : α) (ofReal d) (ofReal g) =
      ofReal ((sum ^ 2 - d * g) / s ^ 2) := by
    simp only [Sample.discriminant, hscale, ← ofReal_div _ hs.ne', ← ofReal_mul, ← ofReal_sub,
      hunits]
  rw [Sample.radius, hscale, hdiscriminant, ← ofReal_sqrt (div_nonneg h (sq_nonneg s)),
    ← ofReal_mul, Real.sqrt_div h, Real.sqrt_sq hs.le, mul_div_cancel₀ _ hs.ne']

/-- The slope of the cubic through a descending start and a higher value has real zeros, of which
the greater one is less than the distance of the two. -/
theorem cubic_of_rise {d g a : ℝ} (hd : d < 0) (ha : 0 < a) :
    0 ≤ (d + g - a) ^ 2 - d * g ∧ 0 < 2 * √((d + g - a) ^ 2 - d * g) - d + g := by
  rcases le_or_gt 0 g with hg | hg
  · have hproduct : d * g ≤ 0 := mul_nonpos_of_nonpos_of_nonneg hd.le hg
    refine ⟨by linarith [sq_nonneg (d + g - a)], ?_⟩
    linarith [Real.sqrt_nonneg ((d + g - a) ^ 2 - d * g)]
  · -- the slope sum is greater in magnitude than either slope
    have hproduct : 0 < d * g := mul_pos_of_neg_of_neg hd hg
    have hsquare : (-g) ^ 2 < (d + g - a) ^ 2 - d * g := by
      have hda : 0 < a * -d := mul_pos ha (neg_pos.mpr hd)
      have hga : 0 < a * -g := mul_pos ha (neg_pos.mpr hg)
      nlinarith [sq_nonneg d, sq_nonneg a]
    refine ⟨(sq_nonneg _).trans hsquare.le, ?_⟩
    have hroot := Real.lt_sqrt_of_sq_lt hsquare
    linarith

omit [ExactScalar α] [StrictScalar α] in
/-- The step after a higher value ahead of the best step is the minimizer of the cubic, or lies
midway between it and that of the parabola. -/
theorem stepAfterRise_cases {best trial : Sample α} (hahead : ¬ trial.position < best.position) :
    let sum := Sample.cubicSum best trial best.slope trial.slope
    let root := Sample.radius sum best.slope trial.slope
    let cubic := best.position +
      (root - best.slope + sum) / (root - best.slope + root + trial.slope) *
        (trial.position - best.position)
    let parabola := best.position +
      best.slope / ((best.value - trial.value) / (trial.position - best.position) + best.slope) /
        2.0 * (trial.position - best.position)
    Span.stepAfterRise best trial = cubic ∨
      Span.stepAfterRise best trial = cubic + (parabola - cubic) / 2.0 := by
  unfold Span.stepAfterRise
  dsimp only
  rw [if_neg hahead]
  exact ite_eq_or_eq _ _ _

/-- The step after a higher value is undefined where the slope is. -/
theorem isFinite_slope_of_stepAfterRise {best trial : Sample α}
    (hahead : ¬ trial.position < best.position)
    (h : isFinite (Span.stepAfterRise best trial) = true) : isFinite trial.slope = true := by
  have hcubic {a r q b : α} (h : isFinite (a + r / (q + trial.slope) * b) = true) :
      isFinite trial.slope = true := by
    rw [isFinite_add, isFinite_mul, Bool.and_eq_true, Bool.and_eq_true] at h
    have hdenominator := (isFinite_of_div h.2.1).2
    rw [isFinite_add, Bool.and_eq_true] at hdenominator
    exact hdenominator.2
  rcases stepAfterRise_cases hahead with hstep | hstep
  · exact hcubic (hstep ▸ h)
  · exact hcubic (isFinite_of_add (hstep ▸ h)).1

/-- **The step after a higher value.**  If the function descends at zero and is higher at a trial,
the next step lies before the trial. -/
theorem stepAfterRise_lt {best trial : Sample α} {d t p : ℝ} (hposition : best.position = 0)
    (hslope : best.slope = ofReal d) (hd : d < 0) (htrial : trial.position = ofReal t)
    (ht : 0 < t) (hrise : best.value < trial.value)
    (hp : Span.stepAfterRise best trial = ofReal p) : p < t := by
  have hahead : ¬ trial.position < best.position := by
    rw [hposition, htrial, ofReal_lt_zero]
    exact ht.not_gt
  obtain ⟨v, f, hv, hf, hvf⟩ := lt_iff.mp hrise
  obtain ⟨g, hg⟩ := isFinite_iff.mp
    (isFinite_slope_of_stepAfterRise hahead (hp ▸ isFinite_ofReal p))
  have ha : 0 < 3 * (f - v) / t := by
    have := sub_pos.mpr hvf
    positivity
  obtain ⟨hreal, hq⟩ := cubic_of_rise (g := g) hd ha
  have hsum : Sample.cubicSum best trial (ofReal d) (ofReal g) =
      ofReal (d + g - 3 * (f - v) / t) := by
    rw [Sample.cubicSum, hposition, htrial, hv, hf, literal_eq, ← ofReal_zero]
    simp only [← ofReal_sub, ← ofReal_mul, sub_zero, ← ofReal_div _ ht.ne', ← ofReal_add]
    refine congrArg ofReal ?_
    push_cast
    ring
  set a := 3 * (f - v) / t
  set root := √((d + g - a) ^ 2 - d * g) with hroot
  have hroot0 : 0 ≤ root := Real.sqrt_nonneg _
  -- the minimizer of the cubic
  let cubic := (root - d + (d + g - a)) / (root - d + root + g) * t
  have hcubic : cubic < t := by
    refine mul_lt_of_lt_one_left ht ?_
    rw [div_lt_one (by linarith)]
    linarith
  -- the minimizer of the parabola
  have hsecant : (v - f) / t < 0 := div_neg_of_neg_of_pos (sub_neg.mpr hvf) ht
  let parabola := d / ((v - f) / t + d) / 2 * t
  have hparabola : parabola < t := by
    refine mul_lt_of_lt_one_left ht ?_
    have hshare : d / ((v - f) / t + d) < 1 := by
      rw [div_lt_one_of_neg (by linarith)]
      linarith
    linarith
  have hstep : Span.stepAfterRise best trial = ofReal cubic ∨
      Span.stepAfterRise best trial = ofReal (cubic + (parabola - cubic) / 2) := by
    have hcases := stepAfterRise_cases hahead
    have htwo : (2.0 : α) = ofReal 2 := by
      rw [literal_eq]
      norm_num
    have hzero : best.position = ofReal 0 := hposition.trans ofReal_zero.symm
    have hq' : root - d + root + g ≠ 0 := by linarith
    have hsecant' : (v - f) / t + d ≠ 0 := by linarith
    simp only [hzero, hslope, htrial, hv, hf, hg, hsum, radius_ofReal hd hreal, ← hroot, htwo,
      ← ofReal_sub, sub_zero, ← ofReal_div _ ht.ne', ← ofReal_add, ← ofReal_div _ hq',
      ← ofReal_div _ hsecant', ← ofReal_div _ two_ne_zero, ← ofReal_mul, zero_add] at hcases
    exact hcases
  rcases hstep with hstep | hstep
  · rw [hstep] at hp
    exact ofReal_injective hp ▸ hcubic
  · rw [hstep] at hp
    rw [← ofReal_injective hp]
    linarith

/-! ## Ranges -/

omit [ExactScalar α] [StrictScalar α] in
/-- A step lies between the least and the greatest one. -/
def Frame.Admits (frame : Frame α) (step : α) : Prop :=
  frame.minStep ≤ step ∧ step ≤ frame.maxStep

omit [StrictScalar α] in
/-- The range of a search that descends, in real numbers. -/
theorem Frame.Descends.exists_range {frame : Frame α} (h : frame.Descends) :
    ∃ least greatest : ℝ, frame.minStep = ofReal least ∧ frame.maxStep = ofReal greatest ∧
      0 ≤ least ∧ least ≤ greatest := by
  obtain ⟨least, greatest, hleast, hgreatest, hle⟩ := le_iff.mp h.range
  refine ⟨least, greatest, hleast, hgreatest, ?_, hle⟩
  rw [← zero_le_ofReal (α := α), ← hleast]
  exact h.minStep

omit [StrictScalar α] in
/-- A step that is moved into the range lies in it. -/
theorem Frame.Descends.admits_clamped {frame : Frame α} (h : frame.Descends) (step : α) :
    frame.Admits (smaller (larger step frame.minStep) frame.maxStep) := by
  obtain ⟨least, greatest, hleast, hgreatest, -, hle⟩ := h.exists_range
  obtain ⟨s, hs, hlow, hhigh⟩ := exists_clamped step hle
  rw [Frame.Admits, hleast, hgreatest, hs, ofReal_le_ofReal, ofReal_le_ofReal]
  exact ⟨hlow, hhigh⟩

omit [StrictScalar α] in
/-- Whatever is less than a number, as far as it is one, stays so when it is moved between two
others of which the lower one is less, too. -/
theorem exists_clamped_lt (a : α) {m M b : ℝ} (h : m ≤ M) (hm : m < b)
    (ha : ∀ x, a = ofReal x → x < b) :
    ∃ s, smaller (larger a (ofReal m)) (ofReal M) = ofReal s ∧ m ≤ s ∧ s ≤ M ∧ s < b := by
  obtain ⟨s, hs, hlow, hhigh⟩ := exists_clamped a h
  refine ⟨s, hs, hlow, hhigh, ?_⟩
  cases hfinite : isFinite a with
  | true =>
    obtain ⟨x, rfl⟩ := isFinite_iff.mp hfinite
    rw [larger_ofReal, smaller_ofReal] at hs
    rw [← ofReal_injective hs]
    exact (min_le_left _ M).trans_lt (max_lt (ha x rfl) hm)
  | false =>
    have hnan : isNaN a = true := by rw [isNaN_eq, hfinite]; rfl
    rw [larger, if_pos hnan, smaller_ofReal, min_eq_left h] at hs
    rwa [← ofReal_injective hs]

/-! ## Backtracking -/

omit [StrictScalar α] in
/-- A step that is shortened keeps a tenth of its length and loses half of it. -/
theorem Run.exists_shorten (c : Config α) (run : Run α) (value : α) {t : ℝ}
    (hstep : run.step = ofReal t) (ht : 0 ≤ t) :
    ∃ u, run.shorten c value = ofReal u ∧ 1 / 10 * t ≤ u ∧ u ≤ 1 / 2 * t ∧
      (c.lineSearch = .armijo → u = 1 / 2 * t) := by
  have hhalf : (0.5 : α) * run.step = ofReal (1 / 2 * t) := by
    rw [literal_eq, hstep, ← ofReal_mul]
    norm_num
  have htenth : (0.1 : α) * run.step = ofReal (1 / 10 * t) := by
    rw [literal_eq, hstep, ← ofReal_mul]
    norm_num
  have hrange : 1 / 10 * t ≤ 1 / 2 * t := by linarith
  have hclamped (minimizer : α) :
      ∃ u, (if isFinite minimizer then
          smaller (larger minimizer (ofReal (1 / 10 * t))) (ofReal (1 / 2 * t))
        else ofReal (1 / 2 * t)) = ofReal u ∧ 1 / 10 * t ≤ u ∧ u ≤ 1 / 2 * t := by
    split
    · exact exists_clamped minimizer hrange
    · exact ⟨1 / 2 * t, rfl, hrange, le_rfl⟩
  unfold Run.shorten
  rw [hhalf, htenth]
  by_cases harmijo : c.lineSearch = .armijo
  · rw [if_pos harmijo]
    exact ⟨1 / 2 * t, rfl, hrange, le_rfl, fun _ => rfl⟩
  · rw [if_neg harmijo]
    obtain ⟨u, hu, hlow, hhigh⟩ := hclamped _
    exact ⟨u, hu, hlow, hhigh, fun h => absurd h harmijo⟩

/-! ## Brackets with an end at zero -/

/-- What is known of a function at step zero. -/
def Frame.origin (frame : Frame α) : Sample α :=
  ⟨0, frame.value, frame.slope⟩

/-- A line is taken off the function and added again without a trace, at real steps. -/
theorem untilt_tilt {s : Sample α} {t r : ℝ} (ht : s.position = ofReal t) :
    (s.tilt (ofReal r)).untilt (ofReal r) = s := by
  have hback (a : α) (b : ℝ) : a - ofReal b + ofReal b = a := by
    refine eq_of_strict (by simp) fun h => ?_
    simp only [isFinite_add, isFinite_sub, Bool.and_eq_true, isFinite_iff] at h
    obtain ⟨⟨⟨x, rfl⟩, -⟩, -⟩ := h
    rw [← ofReal_sub, ← ofReal_add, sub_add_cancel]
  obtain ⟨position, value, slope⟩ := s
  subst ht
  simp only [Sample.tilt, Sample.untilt, ← ofReal_mul, hback]

section Rounds

variable {c : Config α} {frame : Frame α} {b b' : Bracket α} {trial : Sample α} {step : α}

omit [StrictScalar α] in
/-- The slopes of a search that descends and of its line of sufficient decrease. -/
theorem Frame.Descends.exists_slopes (hframe : frame.Descends) (hsftol : 0 < c.sftol)
    (hless : c.sftol < 1) :
    ∃ d r : ℝ, frame.slope = ofReal d ∧ frame.incline c = ofReal r ∧ d < r ∧ r < 0 := by
  obtain ⟨d, -, hd, -, -⟩ := lt_iff.mp hframe.slope
  have hslope := hframe.slope
  rw [hd, ofReal_lt_zero] at hslope
  obtain ⟨σ, hσ, hpos⟩ := exists_of_pos hsftol
  rw [hσ, ← ofReal_one, ofReal_lt_ofReal] at hless
  refine ⟨d, σ * d, hd, by rw [Frame.incline, hσ, hd, ofReal_mul], ?_, ?_⟩
  · linarith [mul_lt_mul_of_neg_right hless hslope]
  · exact mul_neg_of_pos_of_neg hpos hslope

/-- A value that is higher than the one at zero, or is so less the line of sufficient decrease,
lies above that line. -/
theorem above_of_rise {r t : ℝ} (hincline : frame.incline c = ofReal r) (hr : r < 0)
    (htrial : trial.position = ofReal t) (ht : 0 ≤ t)
    (h : frame.value < trial.value ∨
      (frame.origin.tilt (frame.incline c)).value < (trial.tilt (frame.incline c)).value) :
    frame.target c trial.position < trial.value := by
  rw [Frame.target, hincline, htrial, ← ofReal_mul]
  rcases h with h | h
  · obtain ⟨v, f, hv, hf, hvf⟩ := lt_iff.mp h
    rw [hv, hf, ← ofReal_add, ofReal_lt_ofReal]
    linarith [mul_nonpos_of_nonneg_of_nonpos ht hr.le]
  · have horigin : (frame.origin.tilt (frame.incline c)).value = frame.value - ofReal 0 := by
      rw [Sample.tilt, Frame.origin, hincline, ← ofReal_zero, ← ofReal_mul, zero_mul]
    rw [horigin, Sample.tilt, htrial, hincline, ← ofReal_mul] at h
    obtain ⟨x, y, hx, hy, -⟩ := lt_iff.mp h
    obtain ⟨v, hv⟩ := isFinite_iff.mp (isFinite_of_sub (hx ▸ isFinite_ofReal x)).1
    obtain ⟨f, hf⟩ := isFinite_iff.mp (isFinite_of_sub (hy ▸ isFinite_ofReal y)).1
    rw [hv, hf, ← ofReal_sub, ← ofReal_sub, ofReal_lt_ofReal] at h
    rw [hv, hf, ← ofReal_add, ofReal_lt_ofReal]
    linarith

/-- A trial that has closed a bracket whose best step is still step zero. -/
structure Span.ClosesFromOrigin (c : Config α) (frame : Frame α) (trial : Sample α) (t : ℝ)
    (span : Span α) (proposed : α) : Prop where
  bracketed : span.bracketed = true
  best : span.best = frame.origin
  other : span.other.position = ofReal t
  /-- The value of the trial lies above the line of sufficient decrease. -/
  above : frame.target c trial.position < trial.value
  /-- The step proposed lies before the trial. -/
  before : 0 < t → ∀ p, proposed = ofReal p → p < t

/-- While step zero is the best step of a bracket, a trial takes its place or closes the bracket. -/
theorem Bracket.refine_from_origin (hsftol : 0 < c.sftol) (hless : c.sftol < 1)
    (hframe : frame.Descends) (hbest : b.span.best = frame.origin) {t : ℝ}
    (htrial : trial.position = ofReal t) (ht : 0 ≤ t) (tilted : Bool) :
    (b.refine tilted (frame.incline c) trial).1.best.position = trial.position ∨
      Span.ClosesFromOrigin c frame trial t (b.refine tilted (frame.incline c) trial).1
        (b.refine tilted (frame.incline c) trial).2 := by
  obtain ⟨d, r, hd, hincline, hdr, hr⟩ := hframe.exists_slopes hsftol hless
  cases tilted with
  | true =>
    have htilted : (b.span.tilt (frame.incline c)).best = frame.origin.tilt (frame.incline c) := by
      rw [Span.tilt, hbest]
    simp only [Bracket.refine, if_true]
    rcases (b.span.tilt (frame.incline c)).update_cases (trial.tilt (frame.incline c)) with
      ⟨hrise, hupdate⟩ | ⟨-, -, hupdate⟩ | ⟨-, -, hupdate⟩
    · right
      rw [hupdate, Span.nextStep, if_pos hrise]
      rw [htilted] at hrise ⊢
      refine ⟨rfl, ?_, htrial, above_of_rise hincline hr htrial ht (.inr hrise), ?_⟩
      · show (frame.origin.tilt (frame.incline c)).untilt (frame.incline c) = frame.origin
        rw [hincline]
        exact untilt_tilt ofReal_zero.symm
      · intro htpos p hp
        have hslope : (frame.origin.tilt (frame.incline c)).slope = ofReal (d - r) := by
          rw [ofReal_sub, ← hd, ← hincline]
          rfl
        have htilt : (trial.tilt (frame.incline c)).position = ofReal t := htrial
        exact stepAfterRise_lt rfl hslope (by linarith) htilt htpos hrise hp
    · left
      rw [hupdate]
      rfl
    · left
      rw [hupdate]
      rfl
  | false =>
    simp only [Bracket.refine, Bool.false_eq_true, if_false]
    rcases b.span.update_cases trial with ⟨hrise, hupdate⟩ | ⟨-, -, hupdate⟩ | ⟨-, -, hupdate⟩
    · right
      rw [hupdate, Span.nextStep, if_pos hrise]
      rw [hbest] at hrise ⊢
      refine ⟨rfl, rfl, htrial, above_of_rise hincline hr htrial ht (.inl hrise), ?_⟩
      intro htpos p hp
      exact stepAfterRise_lt rfl hd (hdr.trans hr) htrial htpos hrise hp
    · left
      rw [hupdate]
    · left
      rw [hupdate]

/-- Where a bracket with an end at zero is closed by a trial beyond the least step, there is room
for another step. -/
theorem Bracket.admits_of_settle (hsxtol : c.sxtol < 1) (hframe : frame.Descends) {t : ℝ}
    (htrial : trial.position = ofReal t) (hrange : frame.Admits (ofReal t))
    (hleast : (trial.position == frame.minStep) = false) {early : Bool} {span : Span α}
    {proposed : α} (hcloses : span.ClosesFromOrigin c frame trial t proposed)
    (h : b.settle c.sxtol frame early span proposed = .next b' step) : frame.Admits step := by
  obtain ⟨least, greatest, hmin, hmax, hleast0, hle⟩ := hframe.exists_range
  obtain ⟨narrow, -, hnarrow, -, -⟩ := lt_iff.mp hsxtol
  rw [hnarrow, ← ofReal_one, ofReal_lt_ofReal] at hsxtol
  have hclamped := hframe.admits_clamped (b.halved span proposed)
  rw [Frame.Admits, hmin, hmax, ofReal_le_ofReal, ofReal_le_ofReal] at hrange
  have hlt : least < t := by
    refine lt_of_le_of_ne hrange.1 ?_
    rintro rfl
    rw [htrial, hmin, beq_iff.mpr ⟨least, rfl, rfl⟩] at hleast
    cases hleast
  have ht : 0 < t := hleast0.trans_lt hlt
  have hbest : span.best.position = ofReal 0 := by
    rw [hcloses.best, ofReal_zero]
    rfl
  have hhalved (x : ℝ) (hx : b.halved span proposed = ofReal x) : x < t := by
    unfold halved at hx
    split at hx
    · rw [hbest, hcloses.other, literal_eq, ← ofReal_sub, ← ofReal_mul, ← ofReal_add] at hx
      rw [← ofReal_injective hx]
      norm_num
      linarith
    · exact hcloses.before ht x hx
  obtain ⟨s, hs, hlow, hhigh, hst⟩ := exists_clamped_lt _ hle hlt hhalved
  rw [← hmin, ← hmax] at hs
  rcases step_of_settle hcloses.bracketed rfl h with ⟨hstep, -⟩ | ⟨hstep, hroom⟩
  · rw [hstep]
    exact hclamped
  · rw [hs, hbest, hcloses.other, smaller_ofReal, larger_ofReal, min_eq_left ht.le,
      max_eq_right ht.le] at hroom
    rcases hroom with hroom | hroom | hroom
    · -- the least step is zero
      rw [ofReal_le_ofReal] at hroom
      rw [hstep, hbest, Frame.Admits, hmin, hmax, ofReal_le_ofReal, ofReal_le_ofReal]
      exact ⟨hlow.trans hroom, hleast0.trans hle⟩
    · rw [ofReal_le_ofReal] at hroom
      exact absurd hst (not_lt.mpr hroom)
    · rw [isNarrow, decide_eq_true_eq, hnarrow, ← ofReal_sub, ← ofReal_mul, ofReal_le_ofReal,
        sub_zero] at hroom
      exact absurd (mul_lt_of_lt_one_left ht hsxtol) (not_lt.mpr hroom)

omit [StrictScalar α] in
/-- Where the best step lies in the range the next one does, falling back or not. -/
theorem Bracket.admits_of_best (hframe : frame.Descends) {early : Bool} {span : Span α}
    {proposed : α} (hbest : frame.Admits span.best.position)
    (h : b.settle c.sxtol frame early span proposed = .next b' step) : frame.Admits step := by
  cases hspan : span.bracketed with
  | true =>
    rcases (settle_bracketed hspan h).2 with hstep | hstep
    · rwa [hstep]
    · rw [hstep]
      exact hframe.admits_clamped _
  | false =>
    rw [(settle_open hspan h).2]
    exact hframe.admits_clamped _

/-- **A round keeps to the range.**  If the trial lies in the range, and so does the best step
unless it is still step zero, then the same holds after the round. -/
theorem Bracket.admits_advance (hsftol : 0 < c.sftol) (hless : c.sftol < 1) (hsxtol : c.sxtol < 1)
    (hframe : frame.Descends) (htrial : frame.Admits trial.position)
    (hbest : b.span.best = frame.origin ∨ frame.Admits b.span.best.position)
    (h : b.advance c frame trial = .next b' step) :
    frame.Admits step ∧
      (b'.span.best = frame.origin ∨ frame.Admits b'.span.best.position) := by
  obtain ⟨hproceeds, hsettle⟩ := advance_eq_next h
  have hspan' := span_of_settle hsettle
  have hmoves := b.moves_refine (b.tilts c frame trial) (frame.incline c) trial
  obtain ⟨least, t, hleast, ht, hlt⟩ := le_iff.mp htrial.1
  have ht0 : 0 ≤ t := by
    obtain ⟨m, -, hm, -, hm0, -⟩ := hframe.exists_range
    rw [hleast] at hm
    exact hm0.trans (ofReal_injective hm ▸ hlt)
  have hplaced : frame.Admits (b.refine (b.tilts c frame trial) (frame.incline c)
        trial).1.best.position ∨
      Span.ClosesFromOrigin c frame trial t
        (b.refine (b.tilts c frame trial) (frame.incline c) trial).1
        (b.refine (b.tilts c frame trial) (frame.incline c) trial).2 := by
    rcases hbest with hbest | hbest
    · rcases refine_from_origin hsftol hless hframe hbest ht ht0 (b.tilts c frame trial)
        with htaken | hcloses
      · exact .inl (htaken ▸ htrial)
      · exact .inr hcloses
    · left
      rcases hmoves with ⟨-, hkept, -⟩ | ⟨-, htaken, -⟩ | ⟨-, htaken, -⟩
      · exact hkept ▸ hbest
      · exact htaken ▸ htrial
      · exact htaken ▸ htrial
  rw [hspan']
  rcases hplaced with hadmits | hcloses
  · exact ⟨admits_of_best hframe hadmits hsettle, .inr hadmits⟩
  · exact ⟨admits_of_settle hsxtol hframe ht (ht ▸ htrial) (hproceeds.notLeast hcloses.above)
      hcloses hsettle, .inl hcloses.best⟩

end Rounds

/-! ## Searches -/

namespace Run

/-- What a search preserves: its step lies in the range, and so does its best step unless it is
still step zero. -/
structure InRange (run : Run α) : Prop where
  frame : run.frame.Descends
  step : run.frame.Admits run.step
  best : run.bracket.span.best = run.frame.origin ∨
    run.frame.Admits run.bracket.span.best.position

omit [StrictScalar α] in
theorem inRange_start {c : Config α} {recent : List α} {value slope step minStep maxStep : α}
    {run : Run α} (h : start c recent value slope step minStep maxStep = .ok run) :
    run.InRange ∧ run.frame = ⟨value, slope, minStep, maxStep⟩ := by
  obtain ⟨hslope, hleast, horder, -, rfl⟩ := start_eq_ok_iff.mp h
  have hframe : Frame.Descends ⟨value, slope, minStep, maxStep⟩ := ⟨hslope, hleast, horder⟩
  exact ⟨⟨hframe, hframe.admits_clamped step, .inl rfl⟩, rfl⟩

/-- A search that goes on stays in its range. -/
theorem InRange.next {c : Config α} (hsftol : 0 < c.sftol) (hless : c.sftol < 1)
    (hsxtol : c.sxtol < 1) {run run' : Run α} (h : run.InRange) {value slope : α}
    (hanswer : run.answer c value slope = .next run') : run'.InRange := by
  by_cases hcubic : c.lineSearch = .cubic
  · obtain ⟨bracket, step, hround, rfl⟩ := answer_eq_next hcubic hanswer
    obtain ⟨hstep, hbest⟩ :=
      Bracket.admits_advance hsftol hless hsxtol h.frame h.step h.best hround
    exact ⟨h.frame, hstep, hbest⟩
  · obtain ⟨-, -, hleast, rfl⟩ := backtrack_eq_next hcubic hanswer
    obtain ⟨least, greatest, hmin, hmax, hleast0, hle⟩ := h.frame.exists_range
    have hadmits := h.step
    obtain ⟨-, t, -, ht, -⟩ := le_iff.mp hadmits.1
    rw [Frame.Admits, hmin, hmax, ht, ofReal_le_ofReal, ofReal_le_ofReal] at hadmits
    have ht0 := hleast0.trans hadmits.1
    obtain ⟨u, hu, -, hhalf, -⟩ := run.exists_shorten c value ht ht0
    rw [hu, hmin, ofReal_lt_ofReal, not_lt] at hleast
    refine ⟨h.frame, ?_, h.best⟩
    show run.frame.Admits (run.shorten c value)
    rw [Frame.Admits, hmin, hmax, hu, ofReal_le_ofReal, ofReal_le_ofReal]
    exact ⟨hleast, by linarith⟩

end Run

namespace LineSearch

/-- **Trial steps stay in range.**  In exact arithmetic, with a tolerance on decrease and a
relative bracket width below one, a search of any kind that starts only ever asks for steps
between the least and the greatest one it was started with, whatever it is told: the answers may
belong to no function, and may even be undefined. -/
theorem trial_steps_in_range (s₀ : LineSearch α) (hsftol : 0 < s₀.config.sftol)
    (hless : s₀.config.sftol < 1) (hsxtol : s₀.config.sxtol < 1)
    {value slope step minStep maxStep : α} {s : LineSearch α}
    (hstart : s₀.start value slope step minStep maxStep = .ok s) :
    s.status = .search ∧ minStep ≤ s.step ∧ s.step ≤ maxStep ∧
      ∀ (answers : Nat → α × α) (k : Nat), (s.answered answers k).status = .search →
        minStep ≤ (s.answered answers k).step ∧ (s.answered answers k).step ≤ maxStep := by
  obtain ⟨run, hrun, rfl⟩ := LineSearch.start_eq_ok_iff.mp hstart
  obtain ⟨hrange, hframe⟩ := Run.inRange_start hrun
  have hbetween {run' : Run α} (h : run'.InRange) (hkept : run'.frame = run.frame) :
      minStep ≤ run'.step ∧ run'.step ≤ maxStep := by
    have hstep := h.step
    rwa [hkept, hframe] at hstep
  have hnext (k : Nat) (run₁ run₂ : Run α) (value slope : α)
      (h : run₁.InRange ∧ run₁.frame = run.frame)
      (hanswer : run₁.answer s₀.config value slope = .next run₂) :
      run₂.InRange ∧ run₂.frame = run.frame :=
    ⟨h.1.next hsftol hless hsxtol hanswer, (Run.kept_of_next hanswer).1.trans h.2⟩
  refine ⟨rfl, (hbetween hrange rfl).1, (hbetween hrange rfl).2, fun answers k hsearch => ?_⟩
  rcases answered_cases (P := fun _ run' => run'.InRange ∧ run'.frame = run.frame)
    (s := { s₀ with state := .running run }) rfl ⟨hrange, rfl⟩ hnext answers k with
    hended | ⟨run', hrunning, hrange', hkept⟩
  · exact absurd hsearch hended
  · rw [hrunning]
    exact hbetween hrange' hkept

/-- A search over the real numbers that is told of a higher value again and again, with its best
step at zero, does not fall back to zero. -/
theorem rising_search_stays_in_range :
    ∃ s, plainCubic.start 0 (-1) 1 (1 / 2) 3 = .ok s ∧
      ∀ k, (s.answered (fun _ => (1, 0)) k).status = .search →
        1 / 2 ≤ (s.answered (fun _ => (1, 0)) k).step ∧
          (s.answered (fun _ => (1, 0)) k).step ≤ 3 := by
  have hsftol : (0 : ℝ) < 0.25 := by norm_num
  have hless : (0.25 : ℝ) < 1 := by norm_num
  have hsxtol : (0.125 : ℝ) < 1 := by norm_num
  obtain ⟨s, hs⟩ : ∃ s, plainCubic.start 0 (-1) 1 (1 / 2) 3 = .ok s :=
    ⟨_, LineSearch.start_eq_ok_iff.mpr ⟨_, Run.start_eq_ok_iff.mpr
      ⟨neg_one_lt_zero, by norm_num, by norm_num, one_pos, rfl⟩, rfl⟩⟩
  obtain ⟨-, -, -, hrange⟩ := trial_steps_in_range plainCubic hsftol hless hsxtol hs
  exact ⟨s, hs, hrange _⟩

end LineSearch

end Descent
