/-
# Symmetries of boxes

A reflected interval has its ends exchanged and negated.  Lower and upper ends are treated as
mirror images of one another, so everything that is done with a box goes along with a symmetry
of the coordinates, and the steps at which a path meets the bounds stay the same.

* `Interval.mirror`, `Symmetry.box` : reflected intervals, and boxes under a symmetry;
* `project_box`, `contains_box` : points of the box;
* `effectiveGradient_box`, `effectiveNorm_box`, `projectDirection_box` : gradients and directions;
* `stepLimits_box` : steps along a direction.
-/
import Mathlib
import Descent.Proofs.Projection
import Descent.Proofs.Symmetry.Vectors

namespace Descent

open Scalar ExactScalar StrictScalar

variable {α : Type} [Scalar α] {n : Nat}

/-! ## Intervals -/

namespace Interval

/-- An interval or its mirror image, whose ends are exchanged and negated. -/
def mirror (flip : Bool) (I : Interval α) : Interval α :=
  if flip then ⟨I.upper.map (- ·), I.lower.map (- ·)⟩ else I

variable [ExactScalar α] [StrictScalar α] (flip : Bool) (I : Interval α) (x g : α)

theorem atLower_neg : (I.mirror true).atLower (-x) = I.atUpper x := by
  rcases I with ⟨lower, _ | hi⟩
  · simp [mirror, atLower, atUpper]
  · simp [mirror, atLower, atUpper]

theorem atUpper_neg : (I.mirror true).atUpper (-x) = I.atLower x := by
  rcases I with ⟨_ | lo, upper⟩
  · simp [mirror, atLower, atUpper]
  · simp [mirror, atLower, atUpper]

theorem contains_mirror : (I.mirror flip).contains (Descent.mirror flip x) = I.contains x := by
  cases flip with
  | false => rfl
  | true =>
    rcases I with ⟨_ | lo, _ | hi⟩
    all_goals simp [mirror, Descent.mirror, contains, Bool.and_comm]

/-- The mirror image is crossed if the interval is. -/
theorem crossed_mirror : (I.mirror flip).crossed = I.crossed := by
  cases flip with
  | false => rfl
  | true =>
    rcases I with ⟨_ | lo, _ | hi⟩
    all_goals simp [mirror, crossed]

/-- The nearest value of the mirror image. -/
theorem clamp_mirror (h : I.Valid) :
    (I.mirror flip).clamp (Descent.mirror flip x) = Descent.mirror flip (I.clamp x) := by
  cases flip with
  | false => rfl
  | true =>
    rcases I with ⟨_ | lo, _ | hi⟩
    · rfl
    · simp only [mirror, Descent.mirror, clamp, clampUpper, if_true, Option.map_some,
        Option.map_none, StrictScalar.neg_lt_neg]
      split
      · rfl
      · rfl
    · simp only [mirror, Descent.mirror, clamp, clampUpper, if_true, Option.map_some,
        Option.map_none, StrictScalar.neg_lt_neg]
      split
      · rfl
      · rfl
    · simp only [mirror, Descent.mirror, clamp, clampUpper, if_true, Option.map_some,
        StrictScalar.neg_lt_neg]
      -- no value lies on both sides of an interval
      have horder : lo ≤ hi := h.lower_le_upper rfl rfl
      by_cases hlo : x < lo
      · have hbelow : x < hi := OrderedScalar.lt_of_lt_of_le hlo horder
        have hhi : ¬ hi < x := OrderedScalar.not_lt_of_le (OrderedScalar.le_of_lt hbelow)
        rw [if_neg hhi, if_pos hlo, if_pos hlo]
      · rw [if_neg hlo, if_neg hlo]
        split
        · rfl
        · rfl

/-- Steepest descent is blocked in the mirror image where it is in the interval. -/
theorem blocks_mirror : (I.mirror flip).blocks (Descent.mirror flip x) (Descent.mirror flip g) =
    I.blocks x g := by
  cases flip with
  | false => rfl
  | true =>
    have hswap : (I.mirror true).blocks (-x) (-g) = I.blocks x g := by
      rw [blocks, atLower_neg, atUpper_neg, blocks, Bool.or_comm]
      simp
    exact hswap

/-- Projected derivatives go along. -/
theorem projectGradient_mirror :
    (I.mirror flip).projectGradient (Descent.mirror flip x) (Descent.mirror flip g) =
      Descent.mirror flip (I.projectGradient x g) := by
  rw [projectGradient, blocks_mirror, projectGradient]
  split
  · exact (mirror_zero flip).symm
  · rfl

/-- Projected velocities go along. -/
theorem projectVelocity_mirror :
    (I.mirror flip).projectVelocity (Descent.mirror flip x) (Descent.mirror flip g) =
      Descent.mirror flip (I.projectVelocity x g) := by
  cases flip with
  | false => rfl
  | true =>
    have hswap : (I.mirror true).projectVelocity (-x) (-g) = -(I.projectVelocity x g) := by
      rw [projectVelocity, atLower_neg, atUpper_neg, projectVelocity, Bool.or_comm]
      simp only [neg_lt_zero_iff, zero_lt_neg_iff]
      split
      · exact StrictScalar.neg_zero.symm
      · rfl
    exact hswap

/-- A mirror image reaches its ends after the same step. -/
theorem reach_mirror : (I.mirror flip).reach (Descent.mirror flip x) (Descent.mirror flip g) =
    I.reach x g := by
  cases flip with
  | false => rfl
  | true =>
    have hlower := I.atLower_neg x
    have hupper := I.atUpper_neg x
    have hswap : (I.mirror true).reach (-x) (-g) = I.reach x g := by
      unfold reach
      simp only [neg_lt_zero_iff, zero_lt_neg_iff, hlower, hupper, isFinite_neg, isNaN_neg]
      by_cases hneg : g < 0
      · have hpos : ¬ 0 < g := OrderedScalar.not_lt_of_le (OrderedScalar.le_of_lt hneg)
        rw [if_neg hpos, if_pos hneg, if_pos hneg]
        rcases I with ⟨_ | lo, upper⟩
        · rfl
        · simp only [mirror, if_true, Option.map_some]
          rw [StrictScalar.neg_sub_neg, StrictScalar.neg_div_neg _ (.inl hneg)]
      · rw [if_neg hneg, if_neg hneg]
        by_cases hpos : 0 < g
        · rw [if_pos hpos, if_pos hpos]
          rcases I with ⟨lower, _ | hi⟩
          · rfl
          · simp only [mirror, if_true, Option.map_some]
            rw [StrictScalar.neg_sub_neg, StrictScalar.neg_div_neg _ (.inr hpos)]
        · rw [if_neg hpos, if_neg hpos]
    exact hswap

end Interval

/-! ## Step limits -/

namespace StepLimits

/-- The first limit after another step. -/
def meet (first : Option α) (step : α) : Option α :=
  if decide (0 < step) && precedes step first then some step else first

/-- The last limit after another step. -/
def stretch (last : Option α) (step : α) : Option α :=
  last.map fun last => if last < step then step else last

variable [ExactScalar α]

/-- The last limit after a step that is a real number. -/
theorem stretch_ofReal (x y : ℝ) :
    stretch (some (ofReal x : α)) (ofReal y) = some (ofReal (max x y)) := by
  rw [stretch, Option.map_some]
  congr 1
  rcases lt_or_ge x y with h | h
  · rw [if_pos (ofReal_lt_ofReal.mpr h), max_eq_right h.le]
  · rw [if_neg (by simpa using h), max_eq_left h]

theorem stretch_of_not_finite {last : α} (h : isFinite last = false) (step : α) :
    stretch (some last) step = some last := by
  rw [stretch, Option.map_some, if_neg]
  intro hlt
  obtain ⟨x, -, rfl, -, -⟩ := lt_iff.mp hlt
  simp at h

theorem stretch_by_not_finite (last : Option α) {step : α} (h : isFinite step = false) :
    stretch last step = last := by
  cases last with
  | none => rfl
  | some last =>
    rw [stretch, Option.map_some, if_neg]
    intro hlt
    obtain ⟨-, y, -, rfl, -⟩ := lt_iff.mp hlt
    simp at h

/-- The last limit is the greatest of all steps, in whatever order they come. -/
theorem stretch_right_comm (last : Option α) (a b : α) :
    stretch (stretch last a) b = stretch (stretch last b) a := by
  cases ha : isFinite a with
  | false => rw [stretch_by_not_finite _ ha, stretch_by_not_finite _ ha]
  | true =>
    cases hb : isFinite b with
    | false => rw [stretch_by_not_finite _ hb, stretch_by_not_finite _ hb]
    | true =>
      obtain ⟨x, rfl⟩ := isFinite_iff.mp ha
      obtain ⟨y, rfl⟩ := isFinite_iff.mp hb
      cases last with
      | none => rfl
      | some c =>
        cases hc : isFinite c with
        | false => simp only [stretch_of_not_finite hc]
        | true =>
          obtain ⟨z, rfl⟩ := isFinite_iff.mp hc
          rw [stretch_ofReal, stretch_ofReal, stretch_ofReal, stretch_ofReal, max_right_comm]

/-- The first limit after a positive step. -/
theorem meet_ofReal {x : ℝ} (hx : 0 < x) (y : ℝ) :
    meet (some (ofReal y : α)) (ofReal x) = some (ofReal (min y x)) := by
  have hpos : (0 : α) < ofReal x := zero_lt_ofReal.mpr hx
  rw [meet, decide_eq_true hpos, Bool.true_and, precedes]
  rcases lt_or_ge x y with h | h
  · rw [decide_eq_true (ofReal_lt_ofReal.mpr h), if_pos rfl, min_eq_right h.le]
  · rw [decide_eq_false (by simpa using h), if_neg Bool.false_ne_true, min_eq_left h]

theorem meet_none {x : ℝ} (hx : 0 < x) : meet none (ofReal x : α) = some (ofReal x) := by
  have hpos : (0 : α) < ofReal x := zero_lt_ofReal.mpr hx
  rw [meet, decide_eq_true hpos, precedes, isFinite_ofReal]
  rfl

omit [ExactScalar α] in
theorem meet_of_not_pos (first : Option α) {step : α} (h : ¬ 0 < step) :
    meet first step = first := by
  rw [meet, decide_eq_false h]
  rfl

theorem meet_of_not_finite {first : α} (h : isFinite first = false) (step : α) :
    meet (some first) step = some first := by
  rw [meet, precedes, decide_eq_false (p := step < first), Bool.and_false]
  · rfl
  · intro hlt
    obtain ⟨-, y, -, rfl, -⟩ := lt_iff.mp hlt
    simp at h

/-- The first limit is the least of all positive steps, in whatever order they come. -/
theorem meet_right_comm (first : Option α) (a b : α) :
    meet (meet first a) b = meet (meet first b) a := by
  by_cases ha : 0 < a
  · by_cases hb : 0 < b
    · obtain ⟨x, rfl, hx⟩ := exists_of_pos ha
      obtain ⟨y, rfl, hy⟩ := exists_of_pos hb
      cases first with
      | none => rw [meet_none hx, meet_none hy, meet_ofReal hy, meet_ofReal hx, min_comm]
      | some c =>
        cases hc : isFinite c with
        | false => simp only [meet_of_not_finite hc]
        | true =>
          obtain ⟨z, rfl⟩ := isFinite_iff.mp hc
          rw [meet_ofReal hx, meet_ofReal hy, meet_ofReal hy, meet_ofReal hx, min_right_comm]
    · rw [meet_of_not_pos _ hb, meet_of_not_pos _ hb]
  · rw [meet_of_not_pos _ ha, meet_of_not_pos _ ha]

/-- Components can be added to the limits of a path in any order. -/
theorem add_right_comm (limits : StepLimits α) (r r' : Reach α) :
    (limits.add r).add r' = (limits.add r').add r := by
  cases r with
  | still => rfl
  | unlimited =>
    cases r' with
    | still => rfl
    | unlimited => rfl
    | within b => rfl
  | within a =>
    cases r' with
    | still => rfl
    | unlimited => rfl
    | within b =>
      have hadd (limits : StepLimits α) (step : α) : limits.add (.within step) =
          ⟨meet limits.first step, stretch limits.last step⟩ := rfl
      simp only [hadd]
      rw [meet_right_comm, stretch_right_comm]

end StepLimits

/-! ## Boxes -/

namespace Box

/-- How far each component can move. -/
def reaches (box : Box α n) (x d : Vector α n) : Vector (Reach α) n :=
  Vector.zipWith (fun component dᵢ => component.1.reach component.2 dᵢ) (box.sides.zip x) d

@[simp] theorem getElem_reaches (box : Box α n) (x d : Vector α n) (i : Nat) (hi : i < n) :
    (box.reaches x d)[i] = box.sides[i].reach x[i] d[i] := by
  simp [reaches]

/-- The limits of a path come from how far its components can move. -/
theorem stepLimits_eq (box : Box α n) (x d : Vector α n) :
    box.stepLimits x d = (box.reaches x d).toList.foldl StepLimits.add .still := by
  rfl

end Box

namespace Symmetry

/-- The intervals of all components under a symmetry. -/
def sides (T : Symmetry n) (sides : Vector (Interval α) n) : Vector (Interval α) n :=
  Vector.ofFn fun i => ((rearrange T.order sides).get i).mirror (T.flipped i)

@[simp] theorem getElem_sides (T : Symmetry n) (sides : Vector (Interval α) n) (i : Nat)
    (hi : i < n) :
    (T.sides sides)[i] = ((rearrange T.order sides)[i]).mirror (T.flipped ⟨i, hi⟩) := by
  simp [Symmetry.sides, Vector.get_eq_getElem]

/-- A box under a symmetry. -/
def box (T : Symmetry n) (box : Box α n) : Box α n :=
  { sides := T.sides box.sides, bounded := box.bounded }

@[simp] theorem getElem_sides_box (T : Symmetry n) (box : Box α n) (i : Nat) (hi : i < n) :
    (T.box box).sides[i] = ((rearrange T.order box.sides)[i]).mirror (T.flipped ⟨i, hi⟩) :=
  T.getElem_sides box.sides i hi

@[simp] theorem bounded_box (T : Symmetry n) (box : Box α n) :
    (T.box box).bounded = box.bounded := by
  rfl

variable [ExactScalar α] [StrictScalar α] (T : Symmetry n) (box : Box α n)

/-- Points of the box go along. -/
@[simp] theorem contains_box (x : Vector α n) :
    (T.box box).contains (T.act x) = box.contains x := by
  rw [Bool.eq_iff_iff, Box.contains_iff, Box.contains_iff]
  simp only [getElem_sides_box, getElem_rearrange, getElem_act, Fin.getElem_fin,
    Interval.contains_mirror]
  exact T.forall_order (p := fun i => box.sides[i].contains x[i] = true)

/-- Nearest points go along. -/
theorem project_box (h : box.Valid) (x : Vector α n) :
    (T.box box).project (T.act x) = T.act (box.project x) := by
  cases hbounded : box.bounded with
  | true =>
    ext i hi
    rw [Box.getElem_project _ (by simpa using hbounded), getElem_act, getElem_sides_box,
      getElem_rearrange, getElem_act, Fin.getElem_fin, Fin.getElem_fin,
      Interval.clamp_mirror _ _ _ (h.sides _ _), Fin.getElem_fin, Box.getElem_project _ hbounded]
  | false => simp [Box.project, hbounded]

/-- The free components go along. -/
@[simp] theorem free_box (x g : Vector α n) :
    (T.box box).free (T.act x) (T.act g) = rearrange T.order (box.free x g) := by
  ext i hi
  simp only [Box.getElem_free, getElem_sides_box, getElem_act, getElem_rearrange, Fin.getElem_fin,
    Interval.blocks_mirror]

@[simp] theorem projectedGradient_box (x g : Vector α n) :
    (T.box box).projectedGradient (T.act x) (T.act g) = T.act (box.projectedGradient x g) := by
  ext i hi
  simp only [Box.getElem_projectedGradient, getElem_sides_box, getElem_rearrange, getElem_act,
    Fin.getElem_fin, Interval.projectGradient_mirror]

/-- The gradients that decide about stationarity go along. -/
@[simp] theorem effectiveGradient_box (x g : Vector α n) :
    (T.box box).effectiveGradient (T.act x) (T.act g) = T.act (box.effectiveGradient x g) := by
  unfold Box.effectiveGradient
  rw [bounded_box, projectedGradient_box]
  split
  · rfl
  · rfl

@[simp] theorem effectiveNorm_box (x g : Vector α n) :
    (T.box box).effectiveNorm (T.act x) (T.act g) = box.effectiveNorm x g := by
  unfold Box.effectiveNorm Box.projectedGradientNorm
  rw [bounded_box, free_box, maskedDot_act, norm2_act]

/-- Projected directions go along. -/
@[simp] theorem projectDirection_box (x d : Vector α n) :
    (T.box box).projectDirection (T.act x) (T.act d) = T.act (box.projectDirection x d) := by
  cases hbounded : box.bounded with
  | true =>
    ext i hi
    rw [Box.getElem_projectDirection _ (by simpa using hbounded), getElem_act, getElem_sides_box,
      getElem_rearrange, getElem_act, getElem_act, Fin.getElem_fin, Fin.getElem_fin,
      Fin.getElem_fin, Interval.projectVelocity_mirror, Fin.getElem_fin,
      Box.getElem_projectDirection _ hbounded]
  | false => simp [Box.projectDirection, hbounded]

/-- The limits of a path stay the same. -/
@[simp] theorem stepLimits_box (x d : Vector α n) :
    (T.box box).stepLimits (T.act x) (T.act d) = box.stepLimits x d := by
  have hreaches : (T.box box).reaches (T.act x) (T.act d) =
      rearrange T.order (box.reaches x d) := by
    ext i hi
    simp only [Box.getElem_reaches, getElem_rearrange, getElem_sides_box, getElem_act,
      Fin.getElem_fin, Interval.reach_mirror]
  have hcomm : RightCommutative (StepLimits.add (α := α)) := ⟨StepLimits.add_right_comm⟩
  rw [Box.stepLimits_eq, Box.stepLimits_eq, hreaches]
  exact (toList_rearrange T.order _).foldl_eq _

end Symmetry

end Descent
