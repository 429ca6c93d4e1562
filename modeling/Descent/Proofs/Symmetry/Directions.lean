/-
# Symmetries of directions

The sources of directions look at vectors through inner products and combine them linearly, so
the directions that they propose, and what they learn, go along with a symmetry of the
coordinates.

* `Symmetry.pair`, `Symmetry.conjugate`, `Symmetry.engine` : what is remembered, under a symmetry;
* `applyInverse_pairs`, `metricDirection_box` : the variable metric;
* `learn_pairs` : what it learns;
* `next_conjugate` : conjugate gradients.
-/
import Mathlib
import Descent.Optimizer.Solver
import Descent.Proofs.Symmetry.Boxes

namespace Descent

open Scalar ExactScalar StrictScalar

variable {α : Type} [Scalar α] {n : Nat}

namespace Symmetry

/-- A curvature pair under a symmetry. -/
def pair (T : Symmetry n) (p : CurvaturePair α n) : CurvaturePair α n :=
  { s := T.act p.s, y := T.act p.y, ρ := p.ρ }

/-- A support under a symmetry. -/
def support (T : Symmetry n) : Support n → Support n
  | .whole => .whole
  | .only mask => .only (rearrange T.order mask)

@[simp] theorem support_whole (T : Symmetry n) : T.support .whole = .whole := by
  rfl

/-- A mask goes along. -/
@[simp] theorem support_only (T : Symmetry n) (mask : Vector Bool n) :
    T.support (.only mask) = .only (rearrange T.order mask) := by
  rfl

/-- What conjugate gradients remember, under a symmetry. -/
def conjugate (T : Symmetry n) (last : Conjugate α n) : Conjugate α n :=
  { gradient := T.act last.gradient, direction := T.act last.direction, updates := last.updates }

/-- A source of directions under a symmetry. -/
def engine (T : Symmetry n) : Engine α n → Engine α n
  | .conjugate last => .conjugate (last.map T.conjugate)
  | .metric pairs => .metric (pairs.map T.pair)

/-- No pair is lost or gained. -/
@[simp] theorem memoryLength_engine (T : Symmetry n) (e : Engine α n) :
    (T.engine e).memoryLength = e.memoryLength := by
  cases e with
  | conjugate last => rfl
  | metric pairs => exact List.length_map _

variable [ExactScalar α] [StrictScalar α] (T : Symmetry n)

/-! ## The variable metric -/

@[simp] theorem inner_support (S : Support n) (x y : Vector α n) :
    (T.support S).inner (T.act x) (T.act y) = S.inner x y := by
  cases S with
  | whole => exact dot_act T x y
  | only mask => exact maskedDot_act T mask x y

@[simp] theorem add_support (S : Support n) (a : α) (x y : Vector α n) :
    (T.support S).add a (T.act x) (T.act y) = T.act (S.add a x y) := by
  cases S with
  | whole => exact axpy_act T a x y
  | only mask => exact maskedAxpy_act T mask a x y

@[simp] theorem inverseCurvature_pair (S : Support n) (p : CurvaturePair α n) :
    (T.pair p).inverseCurvature (T.support S) = p.inverseCurvature S := by
  cases S with
  | whole => rfl
  | only mask =>
    simp only [support, pair, CurvaturePair.inverseCurvature, maskedDot_act]

@[simp] theorem inverseSize_pair (S : Support n) (p : CurvaturePair α n) :
    (T.pair p).inverseSize (T.support S) = p.inverseSize S := by
  rw [CurvaturePair.inverseSize, inverseCurvature_pair, pair, inner_support,
    CurvaturePair.inverseSize]

/-- The estimate of the inverse goes along. -/
@[simp] theorem applyInverse_pairs (S : Support n) (pairs : List (CurvaturePair α n)) (γ : α)
    (v : Vector α n) :
    applyInverse (T.support S) (pairs.map T.pair) γ (T.act v) =
      T.act (applyInverse S pairs γ v) := by
  induction pairs generalizing γ v with
  | nil =>
    simp only [List.map_nil, applyInverse]
    split
    · exact scale_act T γ v
    · rfl
  | cons p older ih =>
    have hs : (T.pair p).s = T.act p.s := rfl
    have hy : (T.pair p).y = T.act p.y := rfl
    simp only [List.map_cons, applyInverse, inverseCurvature_pair, inverseSize_pair, hs, hy,
      inner_support, add_support, ih]
    split
    · rfl
    · rfl

/-- The direction of the variable metric goes along. -/
@[simp] theorem metricDirection_box (c : Config α) (box : Box α n)
    (pairs : List (CurvaturePair α n)) (x g pg : Vector α n) :
    metricDirection c (T.box box) (pairs.map T.pair) (T.act x) (T.act g) (T.act pg) =
      T.act (metricDirection c box pairs x g pg) := by
  unfold metricDirection
  have hwhole := applyInverse_pairs T .whole pairs (0 : α)
  have honly := applyInverse_pairs T (.only (box.free x g)) pairs (0 : α)
  rw [support_whole] at hwhole
  rw [support_only] at honly
  cases c.metric with
  | lbfgs => simp only [hwhole, scale_act]
  | blmvm => simp only [hwhole, scale_act, projectDirection_box]
  | vmlmb => simp only [free_box, restrict_act, honly, scale_act, projectDirection_box]

/-! ## Learning -/

/-- The size that the newest pair suggests stays the same. -/
@[simp] theorem newestInverseSize_pairs (pairs : List (CurvaturePair α n)) :
    newestInverseSize (pairs.map T.pair) = newestInverseSize pairs := by
  cases pairs with
  | nil => rfl
  | cons newest older =>
    have hsize := inverseSize_pair T .whole newest
    rw [support_whole] at hsize
    simp only [List.map_cons, newestInverseSize, hsize]

/-- Damped gradient changes go along. -/
@[simp] theorem damp_pairs (pairs : List (CurvaturePair α n)) (s y : Vector α n) :
    damp (pairs.map T.pair) (T.act s) (T.act y) = T.act (damp pairs s y) := by
  simp only [damp, newestInverseSize_pairs, dot_act, scale_act, axpy_act]

@[simp] theorem positivePair?_act (s y : Vector α n) :
    positivePair? (T.act s) (T.act y) = (positivePair? s y).map T.pair := by
  unfold positivePair?
  rw [dot_act]
  split
  · rfl
  · rfl

@[simp] theorem admit?_pairs (c : Config α) (pairs : List (CurvaturePair α n)) (s y : Vector α n) :
    admit? c (pairs.map T.pair) (T.act s) (T.act y) = (admit? c pairs s y).map T.pair := by
  unfold admit?
  rw [dot_act, damp_pairs, positivePair?_act, positivePair?_act]
  split
  · rfl
  · split
    · rfl
    · rfl

/-- What the variable metric learns goes along. -/
@[simp] theorem learn_pairs (c : Config α) (pairs : List (CurvaturePair α n)) (s y : Vector α n) :
    learn c (pairs.map T.pair) (T.act s) (T.act y) = (learn c pairs s y).map T.pair := by
  unfold learn
  rw [admit?_pairs]
  cases admit? c pairs s y with
  | none => rfl
  | some p => exact pushRecent_map T.pair c.memory p pairs

/-! ## Conjugate gradients -/

omit [ExactScalar α] [StrictScalar α] in
/-- Steepest descent goes along. -/
@[simp] theorem steepest_act (g : Vector α n) :
    Conjugate.steepest (T.act g) = T.conjugate (Conjugate.steepest g) := by
  rw [Conjugate.steepest, negate_act]
  rfl

/-- Weights stay the same. -/
@[simp] theorem weight_conjugate (rule : ConjugacyRule) (last : Conjugate α n) (g : Vector α n)
    (step : α) :
    Conjugate.weight rule (T.conjugate last) (T.act g) step =
      Conjugate.weight rule last g step := by
  have hleast : (T.conjugate last).leastWeight = last.leastWeight := by
    simp only [Conjugate.leastWeight, conjugate, dot_act]
  unfold Conjugate.weight
  rw [hleast]
  simp only [conjugate, difference_act, dot_act]

@[simp] theorem isStale_conjugate (last : Conjugate α n) (g : Vector α n) :
    (T.conjugate last).isStale (T.act g) = last.isStale g := by
  have hgradient : (T.conjugate last).gradient = T.act last.gradient := rfl
  unfold Conjugate.isStale
  rw [hgradient, dot_act, dot_act]
  rfl

/-- Updated directions go along. -/
@[simp] theorem extend_conjugate (last : Conjugate α n) (g : Vector α n) (β : α) :
    (T.conjugate last).extend (T.act g) β = T.conjugate (last.extend g β) := by
  simp only [Conjugate.extend, conjugate, combine_act]

/-- The next direction goes along. -/
@[simp] theorem next_conjugate (c : Config α) (last : Option (Conjugate α n)) (g : Vector α n)
    (step : α) :
    Conjugate.next c (last.map T.conjugate) (T.act g) step =
      (T.conjugate (Conjugate.next c last g step).1, (Conjugate.next c last g step).2) := by
  cases last with
  | none => exact congrArg (·, false) (steepest_act T g)
  | some last =>
    simp only [Option.map_some, Conjugate.next, isStale_conjugate, weight_conjugate,
      extend_conjugate, steepest_act]
    split
    · rfl
    · split
      · rfl
      · rfl

end Symmetry

end Descent
