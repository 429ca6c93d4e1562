/-
# Nearest points of a box

Projection moves a point to the nearest one of the box.  That it stays inside, moves nothing twice
and keeps the order of points needs no more of the arithmetic than the order of numbers.  Without
rounding, what is left of the way to a point outside leads away from the whole box, so no other
point of the box is as near, in any component, and two points come no farther apart.

* `Interval.Placed`, `Interval.Valid.placed` : where a number lies and what clamping makes of it;
* `Interval.Valid.clamp_eq_self_iff`, `Interval.Valid.clamp_clamp`,
  `Interval.Valid.clamp_le_clamp` : what clamping keeps;
* `Interval.Valid.sub_clamp_mul_nonpos` : the way out leads away from the interval;
* `Interval.Valid.abs_clamp_sub_le`, `Interval.Valid.eq_clamp_of_abs_le`,
  `Interval.Valid.abs_clamp_sub_clamp_le` : distances of real numbers;
* `Box.projects_to_nearest` : the same for points.
-/
import Descent.Proofs.Binary.Laws
import Descent.Proofs.Exact.Scalars
import Descent.Proofs.Projection

namespace Descent

open Scalar OrderedScalar

/-! ## Numbers -/

namespace Interval

section Order

variable {α : Type} [Scalar α] [OrderedScalar α] {I : Interval α} {x y : α}

/-- Where a number lies, beside an interval or in it, and what clamping makes of it. -/
inductive Placed (I : Interval α) (x : α) : Prop
  /-- It lies in the interval and stays. -/
  | inside (hcontains : I.contains x = true) (hclamp : I.clamp x = x) : Placed I x
  /-- It lies below the interval and moves up to the lower end. -/
  | below {lo : α} (hlo : I.lower = some lo) (hlt : x < lo) (hclamp : I.clamp x = lo) : Placed I x
  /-- It lies above the interval and moves down to the upper end. -/
  | above {hi : α} (hhi : I.upper = some hi) (hlt : hi < x) (hclamp : I.clamp x = hi) : Placed I x

/-- Every number has its place. -/
theorem Valid.placed (hI : I.Valid) (hx : isNaN x = false) : I.Placed x := by
  have hinside (hkept : I.clamp x = x) : I.Placed x := by
    refine .inside ?_ hkept
    rw [← hkept]
    exact contains_clamp hI hx
  have hupper (hclamp : I.clamp x = I.clampUpper x) : I.Placed x := by
    unfold clampUpper at hclamp
    cases hhi : I.upper with
    | none => exact hinside (by rw [hclamp, hhi])
    | some hi =>
      simp only [hhi] at hclamp
      by_cases hlt : hi < x
      · exact .above hhi hlt (hclamp.trans (if_pos hlt))
      · exact hinside (hclamp.trans (if_neg hlt))
  cases hlo : I.lower with
  | none => exact hupper (by rw [clamp, hlo])
  | some lo =>
    by_cases hlt : x < lo
    · exact .below hlo hlt (by simp only [clamp, hlo, hlt, if_true])
    · exact hupper (by simp only [clamp, hlo, hlt, if_false])

/-- Clamping leaves a number where it is exactly if it lies in the interval. -/
theorem Valid.clamp_eq_self_iff (hI : I.Valid) (hx : isNaN x = false) :
    I.clamp x = x ↔ I.contains x = true := by
  constructor
  · intro hclamp
    rw [← hclamp]
    exact contains_clamp hI hx
  · exact clamp_of_contains

theorem Valid.clamp_clamp (hI : I.Valid) (x : α) : I.clamp (I.clamp x) = I.clamp x := by
  cases hx : isNaN x with
  | false => exact clamp_of_contains (contains_clamp hI hx)
  | true => rw [clamp_of_isNaN hx, clamp_of_isNaN hx]

/-- A value of the interval stays below what was above it. -/
theorem Valid.le_clamp (hI : I.Valid) (hx : I.contains x = true) (hxy : x ≤ y) :
    x ≤ I.clamp y := by
  cases hI.placed (isNaN_right hxy) with
  | inside _ hclamp =>
    rw [hclamp]
    exact hxy
  | below _ hlt hclamp =>
    rw [hclamp]
    exact le_trans hxy (le_of_lt hlt)
  | above hhi _ hclamp =>
    rw [hclamp]
    exact (between_of_contains hx).2 _ hhi

/-- Clamping keeps the order. -/
theorem Valid.clamp_le_clamp (hI : I.Valid) (hxy : x ≤ y) : I.clamp x ≤ I.clamp y := by
  have hclamped := contains_clamp hI (isNaN_left hxy)
  have hclamped' := contains_clamp hI (isNaN_right hxy)
  cases hI.placed (isNaN_left hxy) with
  | inside hcontains hclamp =>
    rw [hclamp]
    exact hI.le_clamp hcontains hxy
  | below hlo _ hclamp =>
    rw [hclamp]
    exact (between_of_contains hclamped').1 _ hlo
  | above _ hlt hclamp =>
    -- the larger number lies above the upper end as well
    rw [hclamp] at hclamped ⊢
    exact hI.le_clamp hclamped (le_of_lt (lt_of_lt_of_le hlt hxy))

end Order

section Distances

variable {I : Interval ℝ} {x z : ℝ}

/-- The way from the clamped value to a real number leads away from the interval. -/
theorem Valid.sub_clamp_mul_nonpos (hI : I.Valid) (x : ℝ) (hz : I.contains z = true) :
    (x - I.clamp x) * (z - I.clamp x) ≤ 0 := by
  obtain ⟨hlower, hupper⟩ := between_of_contains hz
  cases hI.placed (isNaN_real x) with
  | inside _ hclamp => rw [hclamp, sub_self, zero_mul]
  | below hlo hlt hclamp =>
    rw [hclamp]
    exact mul_nonpos_of_nonpos_of_nonneg (sub_nonpos.mpr hlt.le) (sub_nonneg.mpr (hlower _ hlo))
  | above hhi hlt hclamp =>
    rw [hclamp]
    exact mul_nonpos_of_nonneg_of_nonpos (sub_nonneg.mpr hlt.le) (sub_nonpos.mpr (hupper _ hhi))

/-- The square of a distance to a value of the interval, less that to the clamped value, is at
least the square of the distance between the two. -/
theorem Valid.sq_sub_clamp_le (hI : I.Valid) (x : ℝ) (hz : I.contains z = true) :
    (z - I.clamp x) ^ 2 ≤ (z - x) ^ 2 - (I.clamp x - x) ^ 2 := by
  have hobtuse := hI.sub_clamp_mul_nonpos x hz
  calc (z - I.clamp x) ^ 2
      ≤ (z - I.clamp x) ^ 2 - 2 * ((x - I.clamp x) * (z - I.clamp x)) := by linarith
    _ = (z - x) ^ 2 - (I.clamp x - x) ^ 2 := by ring

/-- No value of the interval is nearer than the clamped one. -/
theorem Valid.abs_clamp_sub_le (hI : I.Valid) (x : ℝ) (hz : I.contains z = true) :
    |I.clamp x - x| ≤ |z - x| := by
  rw [← sq_le_sq]
  linarith [hI.sq_sub_clamp_le x hz, sq_nonneg (z - I.clamp x)]

/-- No other value of the interval is as near. -/
theorem Valid.eq_clamp_of_abs_le (hI : I.Valid) (hz : I.contains z = true)
    (hle : |z - x| ≤ |I.clamp x - x|) : z = I.clamp x := by
  rw [← sq_le_sq] at hle
  have hzero : (z - I.clamp x) ^ 2 ≤ 0 := by
    linarith [hI.sq_sub_clamp_le x hz]
  exact sub_eq_zero.mp (sq_nonpos_iff _ |>.mp hzero)

/-- Clamping brings no two numbers farther apart. -/
theorem Valid.abs_clamp_sub_clamp_le (hI : I.Valid) (x y : ℝ) :
    |I.clamp x - I.clamp y| ≤ |x - y| := by
  have hx := hI.sub_clamp_mul_nonpos x (contains_clamp hI (isNaN_real y))
  have hy := hI.sub_clamp_mul_nonpos y (contains_clamp hI (isNaN_real x))
  rw [← sq_le_sq]
  -- each of the two ways leads away from the other clamped value
  have hapart : (I.clamp x - I.clamp y) ^ 2 ≤ (I.clamp x - I.clamp y) * (x - y) := by
    linarith
  linarith [two_mul_le_add_sq (I.clamp x - I.clamp y) (x - y)]

end Distances

end Interval

/-! ## Points -/

namespace Box

variable {α : Type} [Scalar α] {n : Nat}

/-- The projection of a point is known by its components, with or without bounds. -/
theorem Valid.project_eq_iff {box : Box α n} (h : box.Valid) (x y : Vector α n) :
    box.project x = y ↔ ∀ i (_ : i < n), box.sides[i].clamp x[i] = y[i] := by
  rw [Vector.ext_iff]
  simp only [h.getElem_project]

/-- **Nearest points.**  In a box made from bounds, the projection of a point whose components are
numbers lies in the box; it is the point itself exactly if the point lies there.  Projecting twice
moves nothing more, and the order of points is kept, component by component.  Without bounds
nothing is moved at all.

Without rounding, the projection is the one point of the box that is nearest in every component,
and the components of two projections are at most as far apart as those of the points. -/
theorem projects_to_nearest [OrderedScalar α] {bounds : Bounds α} {box : Box α n}
    (h : ofBounds bounds n = .ok box) :
    (∀ x : Vector α n, (∀ i (_ : i < n), isNaN x[i] = false) →
      box.contains (box.project x) = true ∧ (box.contains x = true ↔ box.project x = x)) ∧
    (∀ x : Vector α n, box.project (box.project x) = box.project x) ∧
    (∀ x y : Vector α n, (∀ i (_ : i < n), x[i] ≤ y[i]) →
      ∀ i (_ : i < n), (box.project x)[i] ≤ (box.project y)[i]) ∧
    (ofBounds ({} : Bounds α) n = .ok (whole n) ∧ ∀ x : Vector α n, (whole n).project x = x) ∧
    ∀ (bounds : Bounds ℝ) (box : Box ℝ n), ofBounds bounds n = .ok box → ∀ x : Vector ℝ n,
      (∀ z, box.contains z = true → ∀ i (_ : i < n),
        |(box.project x)[i] - x[i]| ≤ |z[i] - x[i]| ∧
          (|z[i] - x[i]| ≤ |(box.project x)[i] - x[i]| → z[i] = (box.project x)[i])) ∧
      ∀ (y : Vector ℝ n) i (_ : i < n),
        |(box.project x)[i] - (box.project y)[i]| ≤ |x[i] - y[i]| := by
  have hbox := valid_of_ofBounds h
  refine ⟨?_, ?_, ?_, ⟨ofBounds_empty n, project_whole⟩, ?_⟩
  · intro x hx
    refine ⟨(contains_project_iff hbox x).mpr hx, ?_⟩
    rw [contains_iff, hbox.project_eq_iff]
    apply forall₂_congr
    intro i hi
    exact ((hbox.sides i hi).clamp_eq_self_iff (hx i hi)).symm
  · intro x
    rw [hbox.project_eq_iff]
    intro i hi
    rw [hbox.getElem_project]
    exact (hbox.sides i hi).clamp_clamp x[i]
  · intro x y hxy i hi
    rw [hbox.getElem_project, hbox.getElem_project]
    exact (hbox.sides i hi).clamp_le_clamp (hxy i hi)
  · intro bounds box h x
    have hbox := valid_of_ofBounds h
    simp only [hbox.getElem_project]
    constructor
    · intro z hz i hi
      rw [contains_iff] at hz
      exact ⟨(hbox.sides i hi).abs_clamp_sub_le x[i] (hz i hi),
        (hbox.sides i hi).eq_clamp_of_abs_le (hz i hi)⟩
    · intro y i hi
      exact (hbox.sides i hi).abs_clamp_sub_clamp_le x[i] y[i]

/-- Bounds in the plane: one component is bounded on both sides, the other one from above. -/
def shelf : Bounds Float where
  lower := .componentwise #[some 0, none]
  upper := .uniform 1

/-- An infinite point is moved to the shelf, and two points outside of a quadrant come no farther
apart. -/
theorem infinite_point_projected :
    (∃ box, ofBounds shelf 2 = .ok box ∧ box.contains #v[-1, 1 / 0] = false ∧
      box.contains (box.project #v[-1, 1 / 0]) = true ∧
      box.project #v[-1, 1 / 0] ≠ #v[-1, 1 / 0]) ∧
    ∃ box, ofBounds ({ lower := .uniform 0 } : Bounds ℝ) 2 = .ok box ∧
      ∀ i (_ : i < 2), |(box.project #v[-2, 1])[i] - (box.project #v[3, -4])[i]| ≤ 5 := by
  have hany : (ofBounds shelf 2).toOption.any (fun box =>
      !box.contains #v[-1, 1 / 0]) = true := by
    decide +kernel
  obtain ⟨box, hbox, houtside⟩ := exists_ok_of_any hany
  have hnumbers : ∀ i (_ : i < 2), isNaN (#v[-1, 1 / 0] : Vector Float 2)[i] = false := by
    decide +kernel
  obtain ⟨hnearest, -, -, -, hreal⟩ := projects_to_nearest hbox
  obtain ⟨hinside, hkept⟩ := hnearest _ hnumbers
  rw [Bool.not_eq_true'] at houtside
  refine ⟨⟨box, hbox, houtside, hinside, ?_⟩, ?_⟩
  · rw [ne_eq, ← hkept, houtside]
    exact Bool.false_ne_true
  · have hquadrant : ofBounds ({ lower := .uniform 0 } : Bounds ℝ) 2 =
        .ok ⟨#v[⟨some 0, none⟩, ⟨some 0, none⟩], true⟩ := by
      simp [ofBounds, Bounds.resolve, Side.resolve, checkBounds, checkCrossing, firstFailing?,
        Interval.crossed, bind, Except.bind, Bounds.isEmpty, Side.isUnbounded]
      rfl
    refine ⟨_, hquadrant, fun i hi => ?_⟩
    refine ((hreal _ _ hquadrant #v[-2, 1]).2 #v[3, -4] i hi).trans ?_
    obtain rfl | rfl : i = 0 ∨ i = 1 := by omega
    · norm_num
    · norm_num

end Box

end Descent
