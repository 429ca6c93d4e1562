/-
# Conjugate gradients descend

In exact arithmetic the direction by the formula of Hager and Zhang descends after any line search,
and the directions by the formulas whose numerator is the square of the gradient descend if the
line searches leave the slopes small.  The first is a matter of one step, the others of a whole run:
how steep a direction is decides how steep the next one can be.

* `Conjugate.quotient_mul_slope_le` : the slope that the quotient of Hager and Zhang adds;
* `Conjugate.weight_mul_slope_le` : the same if the least weight takes its place;
* `Conjugate.hager_zhang_descends` : directions by their formula descend;
* `Conjugate.fed` : the directions for one gradient after another;
* `Conjugate.Steep`, `Conjugate.Steep.extend` : what a step along the direction preserves;
* `Conjugate.exists_steep` : what a run preserves;
* `Conjugate.strong_wolfe_descends` : directions after line searches that leave slopes small.
-/
import Mathlib
import Descent.Proofs.Acceptance
import Descent.Proofs.Exact.Conjugate
import Descent.Proofs.SearchEnds

namespace Descent

open Scalar ExactScalar StrictScalar Matrix

variable {α : Type} [Scalar α] [ExactScalar α] {n : Nat}

namespace Conjugate

/-! ## The formula of Hager and Zhang -/

/-- Twice a square exceeds a product by no more than an eighth of the other square. -/
theorem mul_dot_le (g y : Vector ℝ n) (a : ℝ) :
    a * dot g y - 2 * (a * a) * dot y y ≤ 1 / 8 * dot g g := by
  have hsquare : 0 ≤ dot (combine 1 g (-(4 * a)) y) (combine 1 g (-(4 * a)) y) :=
    dot_self_nonneg _
  have hexpand : dot (combine 1 g (-(4 * a)) y) (combine 1 g (-(4 * a)) y) =
      dot g g - 8 * a * dot g y + 16 * (a * a) * dot y y := by
    simp only [dot_eq, coords_combine, dotProduct_add, add_dotProduct, dotProduct_smul,
      smul_dotProduct, smul_eq_mul, dotProduct_comm (coords y) (coords g)]
    ring
  linarith

variable {last : Conjugate ℝ n} {g : Vector ℝ n}

/-- The quotient in the formula of Hager and Zhang gives the last direction no more slope than an
eighth of the square of the gradient. -/
theorem quotient_mul_slope_le (step : ℝ)
    (hcurvature : dot last.direction (difference g last.gradient) ≠ 0) :
    last.quotient .hagerZhang g step * dot g last.direction ≤ 1 / 8 * dot g g := by
  have hbound := mul_dot_le g (difference g last.gradient)
    (dot g last.direction / dot last.direction (difference g last.gradient))
  have htwo : (2.0 : ℝ) = 2 := by norm_num
  refine le_of_eq_of_le ?_ hbound
  rw [quotient, numerator, denominator, htwo]
  field_simp

/-- The least weight is not positive. -/
theorem leastWeight_nonpos (last : Conjugate ℝ n) : last.leastWeight ≤ 0 := by
  rw [leastWeight_eq]
  apply div_nonpos_of_nonpos_of_nonneg
  · norm_num
  · have hnorm : (0 : ℝ) ≤ min √(dot last.gradient last.gradient) 0.01 :=
      le_min (Real.sqrt_nonneg _) (by norm_num)
    exact mul_nonneg (Real.sqrt_nonneg _) hnorm

/-- The weight by Hager and Zhang does not give more slope either, be it the quotient or the least
weight. -/
theorem weight_mul_slope_le (step : ℝ)
    (hcurvature : dot last.direction (difference g last.gradient) ≠ 0) :
    weight .hagerZhang last g step * dot g last.direction ≤ 1 / 8 * dot g g := by
  have hquotient := quotient_mul_slope_le step hcurvature
  have hsquare : 0 ≤ dot g g := dot_self_nonneg g
  rw [weight_eq_clip, clip, larger_real]
  rcases le_total last.leastWeight (last.quotient .hagerZhang g step) with hle | hle
  · rwa [max_eq_left hle]
  · rw [max_eq_right hle]
    rcases le_total 0 (dot g last.direction) with hslope | hslope
    · have := mul_nonpos_of_nonpos_of_nonneg last.leastWeight_nonpos hslope
      linarith
    · -- a weight below the quotient would give more slope
      have := mul_le_mul_of_nonpos_right hle hslope
      linarith

/-- **Directions by Hager and Zhang descend.**  In exact arithmetic, whatever step has led to the
new gradient, an engine that uses their formula updates its direction unless the gradient change
is orthogonal to the last one, and the slope of the new direction is at most minus seven eighths of
the square of the gradient. -/
theorem hager_zhang_descends [StrictScalar α] {c : Config α} (hrule : c.conjugacy = .hagerZhang)
    (hpowell : c.powell = false) (last : Conjugate ℝ n) (hgradient : last.gradient ≠ zeros n)
    (hdirection : last.direction ≠ zeros n) (g : Vector ℝ n)
    (hcurvature : dot last.direction (difference g last.gradient) ≠ 0) (step : α) :
    let result := next c (some last.scalars) (ofReals g) step
    result.2 = false ∧
      dot (ofReals g) result.1.direction ≤ ofReal (-(7 / 8)) * dot (ofReals g) (ofReals g) := by
  have hregular : last.Regular c.conjugacy g := by
    rw [hrule]
    exact ⟨hcurvature, fun _ => ⟨hdirection, hgradient⟩⟩
  have hnext : next c (some last.scalars) (ofReals g) step =
      ((last.extend g (weight .hagerZhang last g 0)).scalars, false) := by
    rw [← hrule]
    exact next_scalars_of_ne (by rw [hrule]; decide) hpowell hregular step
  have hslope := weight_mul_slope_le 0 hcurvature
  intro result
  rw [show result = _ from hnext]
  refine ⟨rfl, ?_⟩
  rw [scalars, dot_ofReals, dot_ofReals, ← ofReal_mul, ofReal_le_ofReal, dot_extend]
  linarith

theorem ne_zeros {a : ℝ} (ha : a ≠ 0) : (#v[a] : Vector ℝ 1) ≠ zeros 1 := by
  intro h
  exact ha (congrArg (fun v : Vector ℝ 1 => v[0]) h)

/-- On the line, a gradient that has doubled along steepest descent. -/
theorem doubled_gradient_descends :
    let last : Conjugate ℝ 1 := ⟨#v[1], #v[-1], 0⟩
    let c : Config PartialReal := { conjugacy := .hagerZhang }
    let result := next c (some last.scalars) (ofReals #v[2]) (ofReal 1)
    result.2 = false ∧
      dot (ofReals #v[2]) result.1.direction ≤
        ofReal (-(7 / 8)) * dot (ofReals #v[2]) (ofReals #v[2]) := by
  intro last c
  have hcurvature : dot last.direction (difference #v[2] last.gradient) ≠ 0 := by
    rw [dot_difference]
    norm_num [last, dot_eq, dotProduct, coords]
  exact hager_zhang_descends rfl rfl last (ne_zeros one_ne_zero) (ne_zeros (by norm_num)) #v[2]
    hcurvature (ofReal 1)

/-! ## Small slopes -/

/-- How steep a direction is, as far as the next one depends on it. -/
structure Steep (rule : ConjugacyRule) (σ : ℝ) (last : Conjugate ℝ n) : Prop where
  /-- It descends. -/
  slope : dot last.gradient last.direction < 0
  /-- By the formula of Fletcher and Reeves its slope is of the size of the square of the
  gradient. -/
  ratio : rule = .fletcherReeves →
    -1 / (1 - σ) ≤ dot last.gradient last.direction / dot last.gradient last.gradient ∧
      dot last.gradient last.direction / dot last.gradient last.gradient ≤ (2 * σ - 1) / (1 - σ)

/-- The fraction to which a line search has to reduce the slope, for each formula. -/
inductive Tolerated (σ : ℝ) : ConjugacyRule → Prop
  | fletcherReeves (h : σ < 1 / 2) : Tolerated σ .fletcherReeves
  | fletcher (h : σ < 1) : Tolerated σ .fletcher
  | daiYuan (h : σ < 1) : Tolerated σ .daiYuan

variable {σ : ℝ} {rule : ConjugacyRule}

/-- All fractions are less than one. -/
theorem Tolerated.lt_one (h : Tolerated σ rule) : σ < 1 := by
  cases h with
  | fletcherReeves h => linarith
  | fletcher h => exact h
  | daiYuan h => exact h

/-- The least and the greatest ratio of a slope lie around minus one. -/
theorem ratio_eq (hσ : σ < 1) :
    -1 / (1 - σ) = -1 - σ / (1 - σ) ∧ (2 * σ - 1) / (1 - σ) = -1 + σ / (1 - σ) := by
  have hne : 1 - σ ≠ 0 := (sub_pos.mpr hσ).ne'
  constructor
  · field_simp
    ring
  · field_simp
    ring

/-- Steepest descent is steep. -/
theorem steep_steepest (hσ : 0 < σ) (hlt : σ < 1) (hg : g ≠ zeros n) :
    (steepest g).Steep rule σ := by
  have hsquare : 0 < dot g g := dot_self_pos_iff.mpr hg
  have hslope : dot g (steepest g).direction = -dot g g := dot_steepest g
  have hfraction : 0 ≤ σ / (1 - σ) := div_nonneg hσ.le (sub_pos.mpr hlt).le
  constructor
  · show dot g (steepest g).direction < 0
    linarith
  · intro _
    show -1 / (1 - σ) ≤ dot g (steepest g).direction / dot g g ∧
      dot g (steepest g).direction / dot g g ≤ (2 * σ - 1) / (1 - σ)
    obtain ⟨hleast, hgreatest⟩ := ratio_eq hlt
    rw [hslope, neg_div_self hsquare.ne', hleast, hgreatest]
    constructor
    · linarith
    · linarith

/-- By the formula of Fletcher and Reeves the next direction is as steep. -/
theorem Steep.fletcherReeves (h : last.Steep .fletcherReeves σ) (hσ : 0 < σ) (hlt : σ < 1 / 2)
    (hlast : last.gradient ≠ zeros n) (hg : g ≠ zeros n)
    (hwolfe : |dot g last.direction| ≤ σ * |dot last.gradient last.direction|) (step : ℝ) :
    (last.extend g (weight .fletcherReeves last g step)).Steep .fletcherReeves σ := by
  have hsquare : 0 < dot g g := dot_self_pos_iff.mpr hg
  have hbefore : 0 < dot last.gradient last.gradient := dot_self_pos_iff.mpr hlast
  have hone : σ < 1 := by linarith
  obtain ⟨hleast, hgreatest⟩ := ratio_eq hone
  obtain ⟨hratio, -⟩ := h.ratio rfl
  -- what is left of the slope is at most a fraction of the square of the last gradient
  have hrest : |dot g last.direction / dot last.gradient last.gradient| ≤ σ / (1 - σ) := by
    have hslope : -(dot last.gradient last.direction) / dot last.gradient last.gradient ≤
        1 / (1 - σ) := by
      rw [neg_div] at hratio ⊢
      linarith
    rw [abs_of_neg h.slope] at hwolfe
    rw [abs_div, abs_of_pos hbefore]
    calc |dot g last.direction| / dot last.gradient last.gradient
        ≤ σ * -(dot last.gradient last.direction) / dot last.gradient last.gradient :=
          div_le_div_of_nonneg_right hwolfe hbefore.le
      _ = σ * (-(dot last.gradient last.direction) / dot last.gradient last.gradient) := by
          rw [mul_div_assoc]
      _ ≤ σ * (1 / (1 - σ)) := mul_le_mul_of_nonneg_left hslope hσ.le
      _ = σ / (1 - σ) := by rw [mul_one_div]
  have hnext : dot g (last.extend g (weight .fletcherReeves last g step)).direction =
      dot g g * (-1 + dot g last.direction / dot last.gradient last.gradient) := by
    rw [dot_extend, weight]
    ring
  have hbound : σ / (1 - σ) < 1 := by
    rw [div_lt_one (sub_pos.mpr hone)]
    linarith
  obtain ⟨hbelow, habove⟩ := abs_le.mp hrest
  constructor
  · show dot g _ < 0
    rw [hnext]
    exact mul_neg_of_pos_of_neg hsquare (by linarith)
  · intro _
    show -1 / (1 - σ) ≤ dot g _ / dot g g ∧ dot g _ / dot g g ≤ (2 * σ - 1) / (1 - σ)
    rw [hnext, mul_div_cancel_left₀ _ hsquare.ne', hleast, hgreatest]
    constructor
    · linarith
    · linarith

/-- By the formula of Fletcher the next direction descends. -/
theorem Steep.fletcher (h : last.Steep .fletcher σ) (hlt : σ < 1) (hg : g ≠ zeros n)
    (hwolfe : |dot g last.direction| ≤ σ * |dot last.gradient last.direction|) (step : ℝ) :
    (last.extend g (weight .fletcher last g step)).Steep .fletcher σ := by
  have hsquare : 0 < dot g g := dot_self_pos_iff.mpr hg
  have hdescent : 0 < -dot last.gradient last.direction := neg_pos.mpr h.slope
  have hrest : dot g last.direction / -dot last.gradient last.direction < 1 := by
    rw [abs_of_neg h.slope] at hwolfe
    rw [div_lt_one hdescent]
    calc dot g last.direction
        ≤ σ * -dot last.gradient last.direction := (le_abs_self _).trans hwolfe
      _ < 1 * -dot last.gradient last.direction := mul_lt_mul_of_pos_right hlt hdescent
      _ = -dot last.gradient last.direction := one_mul _
  have hnext : dot g (last.extend g (weight .fletcher last g step)).direction =
      dot g g * (-1 + dot g last.direction / -dot last.gradient last.direction) := by
    rw [dot_extend, weight, dot_comm last.direction]
    ring
  constructor
  · show dot g _ < 0
    rw [hnext]
    exact mul_neg_of_pos_of_neg hsquare (by linarith)
  · rintro ⟨⟩

/-- After a line search that leaves the slope small the slope has risen. -/
theorem Steep.curvature_pos (h : last.Steep rule σ) (hlt : σ < 1)
    (hwolfe : |dot g last.direction| ≤ σ * |dot last.gradient last.direction|) :
    0 < dot last.direction (difference g last.gradient) := by
  have hdescent : 0 < -dot last.gradient last.direction := neg_pos.mpr h.slope
  rw [abs_of_neg h.slope] at hwolfe
  have hrise := mul_lt_mul_of_pos_right hlt hdescent
  have hleast := neg_abs_le (dot g last.direction)
  rw [dot_direction_difference]
  linarith

/-- By the formula of Dai and Yuan the next direction descends. -/
theorem Steep.daiYuan (h : last.Steep .daiYuan σ) (hlt : σ < 1) (hg : g ≠ zeros n)
    (hwolfe : |dot g last.direction| ≤ σ * |dot last.gradient last.direction|) (step : ℝ) :
    (last.extend g (weight .daiYuan last g step)).Steep .daiYuan σ := by
  have hsquare : 0 < dot g g := dot_self_pos_iff.mpr hg
  have hcurvature := h.curvature_pos hlt hwolfe
  have hnext : dot g (last.extend g (weight .daiYuan last g step)).direction =
      dot g g * dot last.gradient last.direction /
        dot last.direction (difference g last.gradient) := by
    rw [dot_extend, weight]
    field_simp
    rw [dot_direction_difference]
    ring
  constructor
  · show dot g _ < 0
    rw [hnext]
    exact div_neg_of_neg_of_pos (mul_neg_of_pos_of_neg hsquare h.slope) hcurvature
  · rintro ⟨⟩

/-- **One step.**  After a line search that leaves the slope small enough, the formula divides by
no zero and the next direction is steep again. -/
theorem Steep.extend (h : last.Steep rule σ) (hσ : 0 < σ) (hrule : Tolerated σ rule)
    (hlast : last.gradient ≠ zeros n) (hg : g ≠ zeros n)
    (hwolfe : |dot g last.direction| ≤ σ * |dot last.gradient last.direction|) (step : ℝ) :
    last.Regular rule g ∧ (last.extend g (weight rule last g step)).Steep rule σ := by
  cases hrule with
  | fletcherReeves hlt =>
    have hdenominator : last.denominator .fletcherReeves g ≠ 0 :=
      (dot_self_pos_iff.mpr hlast).ne'
    exact ⟨⟨hdenominator, by rintro ⟨⟩⟩, h.fletcherReeves hσ hlt hlast hg hwolfe step⟩
  | fletcher hlt =>
    have hdenominator : last.denominator .fletcher g ≠ 0 := by
      show -dot last.direction last.gradient ≠ 0
      rw [dot_comm]
      exact (neg_pos.mpr h.slope).ne'
    exact ⟨⟨hdenominator, by rintro ⟨⟩⟩, h.fletcher hlt hg hwolfe step⟩
  | daiYuan hlt =>
    have hdenominator : last.denominator .daiYuan g ≠ 0 := (h.curvature_pos hlt hwolfe).ne'
    exact ⟨⟨hdenominator, by rintro ⟨⟩⟩, h.daiYuan hlt hg hwolfe step⟩

/-! ## One gradient after another -/

omit [ExactScalar α] in
/-- The engine after a number of gradients, each at a point reached by a step, and whether the last
of them has made it restart. -/
def fed (c : Config α) (g : ℕ → Vector α n) (steps : ℕ → α) : ℕ → Conjugate α n × Bool
  | 0 => next c none (g 0) (steps 0)
  | k + 1 => next c (some (fed c g steps k).1) (g (k + 1)) (steps (k + 1))

/-- **A whole run.**  As long as no gradient is zero and every line search leaves the slope small
enough, the engine updates its direction and keeps it steep. -/
theorem exists_steep [StrictScalar α] {c : Config α} (hpowell : c.powell = false) (hσ : 0 < σ)
    (hrule : Tolerated σ c.conjugacy) {g : ℕ → Vector ℝ n} {steps : ℕ → α} {m : ℕ}
    (hg : ∀ k ≤ m, g k ≠ zeros n)
    (hwolfe : ∀ k < m,
      let d := (fed c (fun j => ofReals (g j)) steps k).1.direction
      Scalar.abs (dot (ofReals (g (k + 1))) d) ≤ ofReal σ * Scalar.abs (dot (ofReals (g k)) d)) :
    ∀ k ≤ m, ∃ last : Conjugate ℝ n,
      fed c (fun j => ofReals (g j)) steps k = (last.scalars, false) ∧ last.gradient = g k ∧
        last.Steep c.conjugacy σ := by
  intro k hk
  induction k with
  | zero =>
    refine ⟨steepest (g 0), ?_, rfl, steep_steepest hσ hrule.lt_one (hg 0 hk)⟩
    rw [fed, next_none, steepest_scalars]
  | succ k ih =>
    obtain ⟨last, hfed, hgradient, hsteep⟩ := ih (by omega)
    have hsmall := hwolfe k (by omega)
    rw [hfed] at hsmall
    simp only [scalars, dot_ofReals, ← ofReal_abs, ← ofReal_mul, ofReal_le_ofReal] at hsmall
    rw [← hgradient] at hsmall
    obtain ⟨hregular, hnext⟩ := hsteep.extend hσ hrule (by rw [hgradient]; exact hg k (by omega))
      (hg (k + 1) hk) hsmall 0
    have hstep : c.conjugacy ≠ .perryShanno := by
      intro h
      rw [h] at hrule
      cases hrule
    refine ⟨_, ?_, rfl, hnext⟩
    rw [fed, hfed]
    exact next_scalars_of_ne hstep hpowell hregular _

end Conjugate

/-! ## Line searches that leave slopes small -/

omit [ExactScalar α] in
/-- What the search that brackets accepts without a remark has a small slope. -/
theorem Run.abs_slope_le_of_accepted {c : Config α} (hcubic : c.lineSearch = .cubic) {run : Run α}
    {value slope : α} (h : run.answer c value slope = .accepted none) :
    Scalar.abs slope ≤ c.curvatureTolerance * -run.frame.slope := by
  rw [answer, if_pos hcubic, enclose] at h
  split at h
  · next hround => exact (Bracket.meets_of_converged hround).2
  · split at h <;> cases h
  · split at h <;> cases h

omit [ExactScalar α] in
/-- Where the search that brackets converges, the slope has become small. -/
theorem LineSearch.abs_slope_le_of_converged {s₀ s : LineSearch α}
    (hcubic : s₀.config.lineSearch = .cubic) {value slope step minStep maxStep : α}
    (hstart : s₀.start value slope step minStep maxStep = .ok s) {answers : Nat → α × α} {k : Nat}
    (hsearch : (s.answered answers k).status = .search)
    (hconverged : (s.answered answers (k + 1)).status = .converged) :
    Scalar.abs (answers k).2 ≤ s₀.config.curvatureTolerance * -slope := by
  obtain ⟨run, hrun, rfl⟩ := start_eq_ok_iff.mp hstart
  have hslope : run.frame.slope = slope := by
    obtain ⟨-, -, -, -, rfl⟩ := Run.start_eq_ok_iff.mp hrun
    rfl
  -- the slope at step zero is kept from answer to answer
  have hkeep (k : Nat) (run run' : Run α) (value slope' : α) (hkept : run.frame.slope = slope)
      (hnext : run.answer s₀.config value slope' = .next run') : run'.frame.slope = slope := by
    rw [(Run.kept_of_next hnext).1, hkept]
  rcases answered_cases (s := { s₀ with state := .running run })
    (P := fun _ run => run.frame.slope = slope) rfl hslope hkeep answers k with
    hended | ⟨run', hrunning, hkept⟩
  · exact absurd hsearch hended
  · have hstate : ({ s₀ with state := .running run' } : LineSearch α).state = .running run' := rfl
    rw [answered, hrunning, iterate_of_running hstate] at hconverged
    obtain ⟨remark, hanswer, -, hnone, -⟩ := exists_accepted_of_take (.inl hconverged)
    rw [hnone hconverged] at hanswer
    rw [← hkept]
    exact Run.abs_slope_le_of_accepted hcubic hanswer

namespace Conjugate

/-- **Descent after line searches that leave slopes small.**  In exact arithmetic an engine is fed
gradients that are not zero, and after each line search the slope along the last direction is in
magnitude at most a fraction of what it was.  Then no gradient makes the engine restart and all
its directions descend, by the formula of Fletcher and Reeves if the fraction is below one half,
with slopes between two multiples of the square of the gradient, and by those of Fletcher and of
Dai and Yuan if it is below one.  Line searches that bracket leave slopes as small wherever they
converge. -/
theorem strong_wolfe_descends [StrictScalar α] (c : Config α) (hpowell : c.powell = false) (σ : ℝ)
    (hσ : 0 < σ) (hrule : Tolerated σ c.conjugacy) :
    (∀ (g : ℕ → Vector ℝ n) (steps : ℕ → α) (m : ℕ), (∀ k ≤ m, g k ≠ zeros n) →
      (∀ k < m,
        let d := (fed c (fun j => ofReals (g j)) steps k).1.direction
        Scalar.abs (dot (ofReals (g (k + 1))) d) ≤
          ofReal σ * Scalar.abs (dot (ofReals (g k)) d)) →
      ∀ k ≤ m,
        let result := fed c (fun j => ofReals (g j)) steps k
        let slope := dot (ofReals (g k)) result.1.direction
        result.2 = false ∧ slope < 0 ∧
          (c.conjugacy = .fletcherReeves →
            ofReal (-1 / (1 - σ)) ≤ slope / dot (ofReals (g k)) (ofReals (g k)) ∧
              slope / dot (ofReals (g k)) (ofReals (g k)) ≤ ofReal ((2 * σ - 1) / (1 - σ)))) ∧
    (c.lineSearch = .cubic → c.curvatureTolerance = ofReal σ →
      ∀ (recent : List α) (value slope step minStep maxStep : α) (s : LineSearch α),
        ({ config := c, recent } : LineSearch α).start value slope step minStep maxStep = .ok s →
        ∀ (answers : ℕ → α × α) (k : ℕ), (s.answered answers k).status = .search →
          (s.answered answers (k + 1)).status = .converged →
          Scalar.abs (answers k).2 ≤ ofReal σ * Scalar.abs slope) := by
  constructor
  · intro g steps m hg hwolfe k hk result slope
    obtain ⟨last, hfed, hgradient, hsteep⟩ := exists_steep hpowell hσ hrule hg hwolfe k hk
    have hslope : slope = ofReal (dot last.gradient last.direction) := by
      rw [hgradient, ← dot_ofReals]
      show dot (ofReals (g k)) result.1.direction = _
      rw [show result = _ from hfed]
      rfl
    refine ⟨?_, ?_, fun hfletcher => ?_⟩
    · rw [show result = _ from hfed]
    · rw [hslope, ofReal_lt_zero]
      exact hsteep.slope
    · have hsquare := (dot_self_pos_iff.mpr (hg k hk)).ne'
      rw [hslope, dot_ofReals, ← ofReal_div _ hsquare, ofReal_le_ofReal, ofReal_le_ofReal,
        ← hgradient]
      exact hsteep.ratio hfletcher
  · intro hcubic htolerance recent value slope step minStep maxStep s hstart answers k hsearch
      hconverged
    have hsmall := LineSearch.abs_slope_le_of_converged hcubic hstart hsearch hconverged
    obtain ⟨run, hrun, -⟩ := LineSearch.start_eq_ok_iff.mp hstart
    obtain ⟨hdescends, -⟩ := Run.start_eq_ok_iff.mp hrun
    obtain ⟨d, -, rfl, -⟩ := lt_iff.mp hdescends
    rw [ofReal_lt_zero] at hdescends
    rw [← ofReal_abs, abs_of_neg hdescends, ofReal_neg, ← htolerance]
    exact hsmall

/-- Settings for line searches that reduce the slope to a quarter. -/
noncomputable def quartering : Config ℝ where
  lineSearch := .cubic
  sgtol := some (1 / 4)

theorem curvatureTolerance_quartering : quartering.curvatureTolerance = 1 / 4 := by
  simp [Config.curvatureTolerance, quartering]

/-- A line search that reaches its first step with a quarter of the slope. -/
theorem exists_quartering_converged :
    ∃ s, ({ config := quartering } : LineSearch ℝ).start 0 (-1) 1 0 1 = .ok s ∧
      s.status = .search ∧ (s.iterate (-1) (1 / 4)).status = .converged := by
  obtain ⟨run, hrun⟩ : ∃ run, Run.start quartering [] (0 : ℝ) (-1) 1 0 1 = .ok run :=
    ⟨_, Run.start_eq_ok_iff.mpr ⟨neg_one_lt_zero, le_rfl, zero_le_one, one_pos, rfl⟩⟩
  have hround : run.bracket.advance quartering run.frame ⟨run.step, -1, 1 / 4⟩ = .converged := by
    obtain ⟨-, -, -, -, rfl⟩ := Run.start_eq_ok_iff.mp hrun
    have hstep : smaller (larger 1 0) 1 = (1 : ℝ) := by
      rw [larger_real, smaller_real]
      norm_num
    have hvalue : (-1 : ℝ) ≤ 0 + 1 * (quartering.sftol * -1) := by
      norm_num [quartering]
    have hslope : |(1 / 4 : ℝ)| ≤ 1 / 4 * - -1 := by
      rw [abs_of_pos (by norm_num)]
      norm_num
    rw [Bracket.advance, hstep, curvatureTolerance_quartering]
    refine if_pos ?_
    rw [Bool.and_eq_true, decide_eq_true_eq, decide_eq_true_eq]
    exact ⟨hvalue, hslope⟩
  have hanswer : run.answer quartering (-1) (1 / 4) = .accepted none := by
    have hcubic : quartering.lineSearch = .cubic := rfl
    rw [Run.answer, if_pos hcubic, Run.enclose, hround]
  let search : LineSearch ℝ := { config := quartering, state := .running run }
  have hstate : search.state = .running run := rfl
  refine ⟨search, LineSearch.start_eq_ok_iff.mpr ⟨run, hrun, rfl⟩, rfl, ?_⟩
  rw [LineSearch.iterate_of_running hstate, hanswer]
  rfl

/-- On the line, the slope is reduced to a quarter of what it was. -/
theorem quartered_slope_descends :
    let g : ℕ → Vector ℝ 1 := fun k => if k = 0 then #v[4] else #v[1]
    let result := fed quartering g (fun _ => 1) 1
    (result.2 = false ∧ dot #v[1] result.1.direction < 0) ∧
    ∃ s, ({ config := quartering } : LineSearch ℝ).start 0 (-1) 1 0 1 = .ok s ∧
      s.status = .search ∧ (s.iterate (-1) (1 / 4)).status = .converged ∧
      Scalar.abs (1 / 4 : ℝ) ≤ ofReal (1 / 4) * Scalar.abs (-1 : ℝ) := by
  intro g result
  obtain ⟨hruns, hsearches⟩ := strong_wolfe_descends (n := 1) quartering rfl (1 / 4) (by norm_num)
    (.fletcherReeves (by norm_num))
  constructor
  · have hnonzero : ∀ k ≤ 1, g k ≠ zeros 1 := by
      intro k _
      simp only [g]
      split
      · exact ne_zeros (by norm_num)
      · exact ne_zeros one_ne_zero
    have hrun := hruns g (fun _ => 1) 1 hnonzero
    simp only [ofReals_real] at hrun
    have hsmall : ∀ k < 1,
        Scalar.abs (dot (g (k + 1)) (fed quartering g (fun _ => 1) k).1.direction) ≤
          ofReal (1 / 4) * Scalar.abs (dot (g k) (fed quartering g (fun _ => 1) k).1.direction) := by
      intro k hk
      obtain rfl : k = 0 := by omega
      show |dot #v[(1 : ℝ)] (negate #v[4])| ≤ 1 / 4 * |dot #v[(4 : ℝ)] (negate #v[4])|
      norm_num [dot_eq, dotProduct, coords, negate]
    obtain ⟨hupdated, hslope, -⟩ := hrun hsmall 1 le_rfl
    exact ⟨hupdated, hslope⟩
  · obtain ⟨s, hstart, hsearch, hconverged⟩ := exists_quartering_converged
    exact ⟨s, hstart, hsearch, hconverged, hsearches rfl curvatureTolerance_quartering [] 0 (-1) 1
      0 1 s hstart (fun _ => (-1, 1 / 4)) 0 hsearch hconverged⟩

end Conjugate

end Descent
