/-
# Conjugate gradients in exact arithmetic

An engine of conjugate gradients whose state is made of real numbers computes with them exactly,
unless the formula for the weight divides by zero.

* `Conjugate.scalars` : the scalars of a state of real numbers;
* `Conjugate.Regular` : the formula for the weight divides by no zero;
* `Conjugate.weight_scalars`, `Conjugate.next_scalars` : weights and directions;
* `Conjugate.dot_extend`, `Conjugate.dot_direction_difference` : the slope of the next direction,
  and what has become of that of the last one.
-/
import Mathlib
import Descent.Proofs.ConjugateWeights
import Descent.Proofs.Exact.Strict

namespace Descent

open Scalar ExactScalar StrictScalar Matrix

variable {n : Nat}

/-! ## Inner products -/

/-- An inner square is positive unless the vector is zero. -/
theorem dot_self_pos_iff {X : Vector ℝ n} : 0 < dot X X ↔ X ≠ zeros n := by
  have hcoords : coords X = 0 ↔ X = zeros n := by
    have hzero : coords (zeros n : Vector ℝ n) = 0 := by
      funext i
      exact Vector.getElem_replicate i.isLt
    rw [← hzero, coords_injective.eq_iff]
  rw [(dot_self_nonneg X).lt_iff_ne', Ne, dot_eq, dotProduct_self_eq_zero, hcoords]

theorem dot_comm (x y : Vector ℝ n) : dot x y = dot y x := by
  rw [dot_eq, dot_eq, dotProduct_comm]

theorem dot_difference (x y z : Vector ℝ n) : dot x (difference y z) = dot x y - dot x z := by
  rw [dot_eq, dot_eq, dot_eq, coords_difference, dotProduct_sub]

namespace Conjugate

/-! ## Slopes -/

theorem dot_steepest (g : Vector ℝ n) : dot g (steepest g).direction = -dot g g := by
  rw [steepest, dot_eq, coords_negate, dotProduct_neg, dot_eq]

/-- The slope of an updated direction. -/
theorem dot_extend (last : Conjugate ℝ n) (g : Vector ℝ n) (β : ℝ) :
    dot g (last.extend g β).direction = -dot g g + β * dot g last.direction := by
  simp only [extend, dot_eq, coords_combine, dotProduct_add, dotProduct_smul, smul_eq_mul]
  ring

/-- How far the slope along the last direction has risen. -/
theorem dot_direction_difference (last : Conjugate ℝ n) (g : Vector ℝ n) :
    dot last.direction (difference g last.gradient) =
      dot g last.direction - dot last.gradient last.direction := by
  rw [dot_difference, dot_comm last.direction, dot_comm last.direction]

/-! ## States of real numbers -/

/-- The formula for the weight divides by nothing that is zero. -/
structure Regular (rule : ConjugacyRule) (last : Conjugate ℝ n) (g : Vector ℝ n) : Prop where
  /-- The quotient is not one by zero. -/
  denominator : last.denominator rule g ≠ 0
  /-- The least weight, where there is one, is no quotient by zero. -/
  least : rule = .hagerZhang → last.direction ≠ zeros n ∧ last.gradient ≠ zeros n

variable {α : Type} [Scalar α] [ExactScalar α]

/-- The scalars of a state of real numbers. -/
def scalars (last : Conjugate ℝ n) : Conjugate α n :=
  { gradient := ofReals last.gradient
    direction := ofReals last.direction
    updates := last.updates }

theorem steepest_scalars (g : Vector ℝ n) :
    steepest (ofReals g : Vector α n) = (steepest g).scalars := by
  rw [steepest, negate_ofReals]
  rfl

theorem extend_scalars (last : Conjugate ℝ n) (g : Vector ℝ n) (β : ℝ) :
    (last.scalars : Conjugate α n).extend (ofReals g) (ofReal β) =
      (last.extend g β).scalars := by
  have hone : (-1 : α) = ofReal (-1) := by rw [ofReal_neg, ofReal_one]
  simp only [extend, scalars, hone, combine_ofReals]

theorem leastWeight_eq (last : Conjugate ℝ n) :
    last.leastWeight = -1 / (√(dot last.direction last.direction) *
      min √(dot last.gradient last.gradient) 0.01) := by
  rw [← smaller_real]
  rfl

/-- The least weight is a real number if neither the gradient nor the direction is zero. -/
theorem leastWeight_scalars {last : Conjugate ℝ n} (hdirection : last.direction ≠ zeros n)
    (hgradient : last.gradient ≠ zeros n) :
    (last.scalars : Conjugate α n).leastWeight = ofReal last.leastWeight := by
  have hone : (-1 : α) = ofReal (-1) := by rw [ofReal_neg, ofReal_one]
  have hlength : 0 < √(dot last.direction last.direction) :=
    Real.sqrt_pos.mpr (dot_self_pos_iff.mpr hdirection)
  have hnorm : 0 < √(dot last.gradient last.gradient) :=
    Real.sqrt_pos.mpr (dot_self_pos_iff.mpr hgradient)
  have hdivisor : √(dot last.direction last.direction) *
      min √(dot last.gradient last.gradient) 0.01 ≠ 0 :=
    (mul_pos hlength (lt_min hnorm (by norm_num))).ne'
  rw [leastWeight_eq, ofReal_div _ hdivisor, ofReal_mul, ← smaller_ofReal,
    ofReal_sqrt (dot_self_nonneg _), ofReal_sqrt (dot_self_nonneg _), ofReal_ofScientific,
    leastWeight, hone, scalars, dot_ofReals, dot_ofReals]

variable [StrictScalar α]

theorem denominator_scalars (rule : ConjugacyRule) (last : Conjugate ℝ n) (g : Vector ℝ n) :
    (last.scalars : Conjugate α n).denominator rule (ofReals g) =
      ofReal (last.denominator rule g) := by
  cases rule <;>
    simp only [denominator, scalars, difference_ofReals, dot_ofReals, ofReal_neg]

/-- What a formula divides is a real number. -/
theorem numerator_scalars {rule : ConjugacyRule} {last : Conjugate ℝ n} {g : Vector ℝ n}
    (h : last.Regular rule g) (step : ℝ) :
    (last.scalars : Conjugate α n).numerator rule (ofReals g) (ofReal step) =
      ofReal (last.numerator rule g step) := by
  cases rule with
  | hagerZhang =>
    -- here the numerator is made of a quotient by the same number
    have hcurvature : dot last.direction (difference g last.gradient) ≠ 0 := h.denominator
    simp only [numerator, scalars, difference_ofReals, dot_ofReals]
    rw [ofReal_sub, ofReal_div _ hcurvature, ofReal_mul, ofReal_mul, ofReal_ofScientific]
  | _ =>
    simp only [numerator, scalars, difference_ofReals, dot_ofReals, ofReal_sub, ofReal_mul]

/-- **Weights of real numbers.**  A formula that divides by no zero is computed exactly. -/
theorem weight_scalars {rule : ConjugacyRule} {last : Conjugate ℝ n} {g : Vector ℝ n}
    (h : last.Regular rule g) (step : ℝ) :
    weight rule (last.scalars : Conjugate α n) (ofReals g) (ofReal step) =
      ofReal (weight rule last g step) := by
  have hquotient : (last.scalars : Conjugate α n).quotient rule (ofReals g)
      (ofReal step) = ofReal (last.quotient rule g step) := by
    rw [quotient, numerator_scalars h, denominator_scalars, ← ofReal_div _ h.denominator, quotient]
  rw [weight_eq_clip, weight_eq_clip, hquotient]
  cases rule with
  | polakRibierePolyak =>
    simp only [clip, zero_lt_ofReal]
    split
    · rfl
    · exact ofReal_zero.symm
  | hagerZhang =>
    obtain ⟨hdirection, hgradient⟩ := h.least rfl
    simp only [clip, leastWeight_scalars hdirection hgradient, larger_ofReal, larger_real]
  | _ => rfl

/-- **Directions of real numbers.**  A formula that divides by no zero gives an update of the
direction that is computed exactly. -/
theorem next_scalars {c : Config α} (hpowell : c.powell = false) {last : Conjugate ℝ n}
    {g : Vector ℝ n} (h : last.Regular c.conjugacy g) (step : ℝ) :
    next c (some last.scalars) (ofReals g) (ofReal step) =
      ((last.extend g (weight c.conjugacy last g step)).scalars, false) := by
  rw [next_some hpowell, weight_scalars h, isFinite_ofReal, if_pos rfl, extend_scalars]

/-- One rule apart, the same holds whatever the last step was. -/
theorem next_scalars_of_ne {c : Config α} (hrule : c.conjugacy ≠ .perryShanno)
    (hpowell : c.powell = false) {last : Conjugate ℝ n} {g : Vector ℝ n}
    (h : last.Regular c.conjugacy g) (step : α) :
    next c (some last.scalars) (ofReals g) step =
      ((last.extend g (weight c.conjugacy last g 0)).scalars, false) := by
  rw [← next_scalars hpowell h, next_some hpowell, next_some hpowell,
    weight_congr_step hrule _ _ step (ofReal 0)]

end Conjugate

end Descent
