/-
# Projections onto a box

The boxes that a run works in have sides that are numbers and do not cross, so a
projected point lies in the box unless it has a component that is not a number.

* `Interval.Valid`, `Box.Valid` : the sides are in order;
* `Box.valid_of_ofBounds` : every box made from bounds is valid;
* `Box.contains_project_iff` : which projected points lie in the box.
-/
import Descent.Box
import Descent.Proofs.Comparison

namespace Descent

open Scalar OrderedScalar

variable {α : Type} [Scalar α]

/-! ## Intervals -/

namespace Interval

/-- The ends are numbers and the lower one does not lie above the upper one. -/
structure Valid (I : Interval α) : Prop where
  /-- The lower end is a number. -/
  lower : ∀ lo, I.lower = some lo → isNaN lo = false
  /-- The upper end is a number. -/
  upper : ∀ hi, I.upper = some hi → isNaN hi = false
  /-- The ends are in order. -/
  uncrossed : I.crossed = false

variable [OrderedScalar α] {I : Interval α} {x : α}

/-- The ends of a valid interval are in order. -/
theorem Valid.lower_le_upper (h : I.Valid) {lo hi : α} (hlo : I.lower = some lo)
    (hhi : I.upper = some hi) : lo ≤ hi := by
  have hcross := h.uncrossed
  simp only [crossed, hlo, hhi, decide_eq_false_iff_not] at hcross
  exact le_of_not_lt (h.upper hi hhi) (h.lower lo hlo) hcross

/-- Only numbers lie in an interval. -/
theorem isNaN_of_contains (h : I.contains x = true) : isNaN x = false := by
  unfold contains at h
  rw [Bool.and_eq_true] at h
  obtain ⟨hlower, -⟩ := h
  cases hlo : I.lower with
  | none => simpa [hlo] using hlower
  | some lo =>
    simp only [hlo, decide_eq_true_eq] at hlower
    exact isNaN_right hlower

omit [OrderedScalar α] in
/-- The ends of an interval enclose what it contains. -/
theorem between_of_contains (h : I.contains x = true) :
    (∀ lo, I.lower = some lo → lo ≤ x) ∧ ∀ hi, I.upper = some hi → x ≤ hi := by
  rw [contains, Bool.and_eq_true] at h
  obtain ⟨hlower, hupper⟩ := h
  constructor
  · intro lo hlo
    rw [hlo] at hlower
    exact of_decide_eq_true hlower
  · intro hi hhi
    rw [hhi] at hupper
    exact of_decide_eq_true hupper

omit [OrderedScalar α] in
/-- A value that is not below the lower end can only be moved at the upper one. -/
theorem clamp_eq_clampUpper (h : ∀ lo, I.lower = some lo → ¬ x < lo) :
    I.clamp x = I.clampUpper x := by
  unfold clamp
  cases hlo : I.lower with
  | none => rfl
  | some lo => exact if_neg (h lo hlo)

/-- Values of an interval stay where they are. -/
theorem clamp_of_contains (h : I.contains x = true) : I.clamp x = x := by
  obtain ⟨hlower, hupper⟩ := between_of_contains h
  rw [clamp_eq_clampUpper fun lo hlo => not_lt_of_le (hlower lo hlo), clampUpper]
  cases hhi : I.upper with
  | none => rfl
  | some hi => exact if_neg (not_lt_of_le (hupper hi hhi))

/-- A number above the lower end is moved into the interval at the upper end. -/
theorem contains_clampUpper (h : I.Valid) (hx : isNaN x = false)
    (hlower : ∀ lo, I.lower = some lo → lo ≤ x) : I.contains (I.clampUpper x) = true := by
  unfold contains clampUpper
  cases hhi : I.upper with
  | none =>
    cases hlo : I.lower with
    | none => simp [hx]
    | some lo => simp [hx, hlower lo hlo]
  | some hi =>
    have hhi' := h.upper hi hhi
    by_cases hlt : hi < x
    · simp only [hlt, if_true, le_refl hhi', decide_true, Bool.and_true]
      cases hlo : I.lower with
      | none => simp [hhi']
      | some lo => simp [h.lower_le_upper hlo hhi]
    · simp only [hlt, if_false, le_of_not_lt hhi' hx hlt, decide_true, Bool.and_true]
      cases hlo : I.lower with
      | none => simp [hx]
      | some lo => simp [hlower lo hlo]

/-- A number is moved into the interval. -/
theorem contains_clamp (h : I.Valid) (hx : isNaN x = false) : I.contains (I.clamp x) = true := by
  unfold clamp
  cases hlo : I.lower with
  | none =>
    refine contains_clampUpper h hx ?_
    intro lo hlo'
    rw [hlo] at hlo'
    cases hlo'
  | some lo =>
    have hlo' := h.lower lo hlo
    by_cases hlt : x < lo
    · simp only [hlt, if_true, contains, hlo, le_refl hlo', decide_true, Bool.true_and]
      cases hhi : I.upper with
      | none => simp [hlo']
      | some hi => simp [h.lower_le_upper hlo hhi]
    · simp only [hlt, if_false]
      refine contains_clampUpper h hx ?_
      intro lo' heq
      rw [hlo] at heq
      cases heq
      exact le_of_not_lt hx hlo' hlt

/-- What is not a number is left where it is. -/
theorem clamp_of_isNaN (hx : isNaN x = true) : I.clamp x = x := by
  -- neither end is on the wrong side of a value that compares with nothing
  have hlt : ∀ y, ¬ x < y := by
    intro y h
    rw [isNaN_left (le_of_lt h)] at hx
    cases hx
  have hgt : ∀ y, ¬ y < x := by
    intro y h
    rw [isNaN_right (le_of_lt h)] at hx
    cases hx
  unfold clamp clampUpper
  cases I.lower with
  | none =>
    cases I.upper with
    | none => rfl
    | some hi => simp [hgt hi]
  | some lo =>
    cases I.upper with
    | none => simp [hlt lo]
    | some hi => simp [hlt lo, hgt hi]

/-- Exactly the numbers are moved into the interval. -/
theorem contains_clamp_iff (h : I.Valid) : I.contains (I.clamp x) = true ↔ isNaN x = false := by
  constructor
  · intro hcontains
    cases hx : isNaN x with
    | false => rfl
    | true =>
      rw [clamp_of_isNaN hx] at hcontains
      rw [isNaN_of_contains hcontains] at hx
      cases hx
  · exact contains_clamp h

end Interval

/-! ## Boxes -/

namespace Box

variable {n : Nat}

/-- All sides are valid, and without bounds they have no ends. -/
structure Valid (box : Box α n) : Prop where
  /-- The sides are valid. -/
  sides : ∀ i (_ : i < n), box.sides[i].Valid
  /-- Without bounds there are no ends. -/
  unbounded : box.bounded = false → ∀ i (_ : i < n), box.sides[i] = {}

/-- The bounds on one side are numbers. -/
theorem isNaN_of_resolve {what : String} {side : Side α} {values : Vector (Option α) n}
    (h : side.resolve what n = .ok values) (i : Nat) (hi : i < n) {v : α}
    (hv : values[i] = some v) : isNaN v = false := by
  -- uniform and componentwise bounds go through the same check
  have hcheck : ∀ bounds : Vector (Option α) n, checkBounds bounds = .ok values →
      isNaN v = false := by
    intro bounds hbounds
    unfold checkBounds at hbounds
    split at hbounds
    · cases hbounds
    · next hnone =>
      cases hbounds
      cases hfirst : firstFailing? (fun bound : Option α => !bound.any isNaN) values.toList with
      | none =>
        have hmem : some v ∈ values.toList := by
          rw [← hv, Vector.mem_toList_iff]
          exact Vector.getElem_mem hi
        simpa using firstFailing?_eq_none hfirst hmem
      | some found =>
        obtain ⟨j, bound⟩ := found
        cases bound with
        | none => simpa using firstFailing?_eq_some hfirst
        | some w => exact absurd hfirst (hnone j w)
  cases side with
  | unbounded =>
    cases h
    simp at hv
  | uniform value => exact hcheck _ h
  | componentwise array =>
    simp only [Side.resolve] at h
    split at h
    · exact hcheck _ h
    · cases h

/-- An absent side resolves to no bounds. -/
theorem resolve_of_isUnbounded {what : String} {side : Side α} {values : Vector (Option α) n}
    (hside : side.isUnbounded = true) (h : side.resolve what n = .ok values) :
    values = Vector.replicate n none := by
  cases side with
  | unbounded =>
    cases h
    rfl
  | uniform value => cases hside
  | componentwise array => cases hside

/-- Intervals that pass the test for crossed ends are kept, and none is crossed. -/
theorem eq_of_checkCrossing {sides sides' : Vector (Interval α) n}
    (h : checkCrossing sides = .ok sides') :
    sides = sides' ∧ ∀ i (_ : i < n), sides[i].crossed = false := by
  unfold checkCrossing at h
  split at h
  · cases h
  · next hnone =>
    cases h
    refine ⟨rfl, ?_⟩
    intro i hi
    cases hfirst : firstFailing? (fun I : Interval α => !I.crossed) sides.toList with
    | none =>
      have hmem : sides[i] ∈ sides.toList := by
        rw [Vector.mem_toList_iff]
        exact Vector.getElem_mem hi
      simpa using firstFailing?_eq_none hfirst hmem
    | some found =>
      -- what fails the test has two ends, so it would have been reported
      obtain ⟨j, ⟨lower, upper⟩⟩ := found
      have hcrossed : Interval.crossed ⟨lower, upper⟩ = true := by
        simpa using firstFailing?_eq_some hfirst
      cases lower with
      | none => simp [Interval.crossed] at hcrossed
      | some lo =>
        cases upper with
        | none => simp [Interval.crossed] at hcrossed
        | some hi => exact absurd hfirst (hnone j lo hi)

/-- A box made from bounds is valid. -/
theorem valid_of_ofBounds {bounds : Bounds α} {box : Box α n} (h : ofBounds bounds n = .ok box) :
    box.Valid := by
  unfold ofBounds Bounds.resolve at h
  simp only [bind, Except.bind] at h
  cases hlower : bounds.lower.resolve "lower bound" n with
  | error e => simp [hlower] at h
  | ok lower =>
    cases hupper : bounds.upper.resolve "upper bound" n with
    | error e => simp [hlower, hupper] at h
    | ok upper =>
      cases hcross : checkCrossing (Vector.zipWith Interval.mk lower upper) with
      | error e => simp [hlower, hupper, hcross] at h
      | ok sides =>
        simp only [hlower, hupper, hcross, Except.ok.injEq] at h
        subst h
        obtain ⟨rfl, huncrossed⟩ := eq_of_checkCrossing hcross
        constructor
        · intro i hi
          constructor
          · intro lo hlo
            exact isNaN_of_resolve hlower i hi (by simpa using hlo)
          · intro hi' hhi
            exact isNaN_of_resolve hupper i hi (by simpa using hhi)
          · exact huncrossed i hi
        · intro hbounded i hi
          have hempty : bounds.isEmpty = true := by simpa using hbounded
          unfold Bounds.isEmpty at hempty
          rw [Bool.and_eq_true] at hempty
          have hnone := resolve_of_isUnbounded hempty.1 hlower
          have hnone' := resolve_of_isUnbounded hempty.2 hupper
          simp [hnone, hnone']

/-- The point lies in the box if each component lies in its interval. -/
theorem contains_iff (box : Box α n) (x : Vector α n) :
    box.contains x = true ↔ ∀ i (_ : i < n), box.sides[i].contains x[i] = true := by
  rw [contains, List.all_eq_true]
  constructor
  · intro h i hi
    have hmem : box.sides[i].contains x[i] ∈
        (Vector.zipWith Interval.contains box.sides x).toList := by
      rw [Vector.mem_toList_iff, Vector.mem_iff_getElem]
      exact ⟨i, hi, by rw [Vector.getElem_zipWith]⟩
    exact h _ hmem
  · intro h b hb
    rw [Vector.mem_toList_iff, Vector.mem_iff_getElem] at hb
    obtain ⟨i, hi, rfl⟩ := hb
    simpa using h i hi

/-- Components of a point projected onto a valid box. -/
theorem Valid.getElem_project {box : Box α n} (h : box.Valid) (x : Vector α n) (i : Nat)
    (hi : i < n) : (box.project x)[i] = box.sides[i].clamp x[i] := by
  -- without bounds nothing is clamped, and clamping would change nothing
  cases hbounded : box.bounded with
  | true => exact Box.getElem_project box hbounded x i hi
  | false =>
    rw [h.unbounded hbounded i hi, Interval.clamp_unbounded]
    simp [project, hbounded]

theorem Valid.getElem_projectDirection_of_finite {box : Box α n} (h : box.Valid) {x : Vector α n}
    (hx : ∀ i (_ : i < n), isFinite x[i] = true) (d : Vector α n) (i : Nat) (hi : i < n) :
    (box.projectDirection x d)[i] = box.sides[i].projectVelocity x[i] d[i] := by
  cases hbounded : box.bounded with
  | true => exact Box.getElem_projectDirection box hbounded x d i hi
  | false =>
    rw [h.unbounded hbounded i hi]
    simp [projectDirection, hbounded, Interval.projectVelocity, Interval.atLower, Interval.atUpper,
      hx i hi]

/-- Exactly the points whose components are all numbers are moved into the box. -/
theorem contains_project_iff [OrderedScalar α] {box : Box α n} (h : box.Valid) (x : Vector α n) :
    box.contains (box.project x) = true ↔ ∀ i (_ : i < n), isNaN x[i] = false := by
  rw [contains_iff]
  constructor
  · intro hcontains i hi
    have hside := hcontains i hi
    rw [h.getElem_project x i hi] at hside
    exact (Interval.contains_clamp_iff (h.sides i hi)).mp hside
  · intro hnum i hi
    rw [h.getElem_project x i hi]
    exact (Interval.contains_clamp_iff (h.sides i hi)).mpr (hnum i hi)

end Box

end Descent
