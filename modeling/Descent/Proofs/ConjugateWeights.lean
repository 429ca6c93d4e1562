/-
# Weights of conjugate gradients

Every formula for the weight of the last direction is a quotient.  Two of them move the quotient
into a range before it is used: one replaces what is not positive by zero, the other admits no
weight below a least one.

* `Conjugate.numerator`, `Conjugate.denominator`, `Conjugate.quotient` : the quotients;
* `Conjugate.clip`, `Conjugate.weight_eq_clip` : the weights made of them;
* `Conjugate.clip_eq_self` : all other rules use the quotient itself;
* `Conjugate.next_of_stale`, `Conjugate.next_of_fresh` : the next direction, by the test for
  staleness, and `Conjugate.next_some` without it.
-/
import Descent.Direction.ConjugateGradient

namespace Descent

open Scalar

namespace Conjugate

variable {α : Type} [Scalar α] {n : Nat}

/-! ## Quotients -/

/-- What the formula for the weight divides. -/
def numerator (rule : ConjugacyRule) (last : Conjugate α n) (g : Vector α n) (step : α) : α :=
  let d := last.direction
  let y := difference g last.gradient
  match rule with
  | .fletcherReeves | .fletcher | .daiYuan => dot g g
  | .hestenesStiefel | .polakRibierePolyak | .liuStorey => dot g y
  | .perryShanno => dot g y - step * dot g d
  | .hagerZhang => dot g y - 2.0 * dot y y * dot g d / dot d y

/-- What the formula for the weight divides by. -/
def denominator (rule : ConjugacyRule) (last : Conjugate α n) (g : Vector α n) : α :=
  match rule with
  | .fletcherReeves | .polakRibierePolyak => dot last.gradient last.gradient
  | .fletcher | .liuStorey => -dot last.direction last.gradient
  | .hestenesStiefel | .daiYuan | .perryShanno | .hagerZhang =>
    dot last.direction (difference g last.gradient)

/-- The quotient that the formula for the weight forms. -/
def quotient (rule : ConjugacyRule) (last : Conjugate α n) (g : Vector α n) (step : α) : α :=
  last.numerator rule g step / last.denominator rule g

/-- The weight that a rule makes of its quotient. -/
def clip (rule : ConjugacyRule) (last : Conjugate α n) (quotient : α) : α :=
  match rule with
  | .polakRibierePolyak => if 0 < quotient then quotient else 0
  | .hagerZhang => larger quotient last.leastWeight
  | _ => quotient

/-- Weights are made of quotients. -/
theorem weight_eq_clip (rule : ConjugacyRule) (last : Conjugate α n) (g : Vector α n) (step : α) :
    weight rule last g step = last.clip rule (last.quotient rule g step) := by
  cases rule <;> rfl

/-- Two rules apart, the weight is the quotient. -/
theorem clip_eq_self {rule : ConjugacyRule} (hclip : rule ≠ .polakRibierePolyak)
    (hleast : rule ≠ .hagerZhang) (last : Conjugate α n) (quotient : α) :
    last.clip rule quotient = quotient := by
  cases rule with
  | polakRibierePolyak => exact absurd rfl hclip
  | hagerZhang => exact absurd rfl hleast
  | _ => rfl

/-- One rule apart, the last step does not matter. -/
theorem weight_congr_step {rule : ConjugacyRule} (h : rule ≠ .perryShanno) (last : Conjugate α n)
    (g : Vector α n) (step step' : α) : weight rule last g step = weight rule last g step' := by
  cases rule with
  | perryShanno => exact absurd rfl h
  | _ => rfl

/-! ## Directions -/

/-- An engine that is stale and tests for it restarts. -/
theorem next_of_stale {c : Config α} {last : Conjugate α n} {g : Vector α n}
    (h : c.powell = true ∧ last.isStale g = true) (step : α) :
    next c (some last) g step = (steepest g, true) := by
  rw [next, if_pos (by rwa [Bool.and_eq_true])]

/-- Any other engine gives the last direction its weight if that is finite. -/
theorem next_of_fresh {c : Config α} {last : Conjugate α n} {g : Vector α n}
    (h : ¬ (c.powell = true ∧ last.isStale g = true)) (step : α) :
    next c (some last) g step =
      if isFinite (weight c.conjugacy last g step) then
        (last.extend g (weight c.conjugacy last g step), false)
      else (steepest g, true) := by
  rw [next, if_neg (by rwa [Bool.and_eq_true])]

theorem next_some {c : Config α} (hpowell : c.powell = false) (last : Conjugate α n)
    (g : Vector α n) (step : α) :
    next c (some last) g step =
      if isFinite (weight c.conjugacy last g step) then
        (last.extend g (weight c.conjugacy last g step), false)
      else (steepest g, true) := by
  refine next_of_fresh ?_ step
  rw [hpowell]
  rintro ⟨⟨⟩, -⟩

end Conjugate

end Descent
