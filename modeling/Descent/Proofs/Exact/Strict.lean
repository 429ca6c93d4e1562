/-
# Strict scalars

Exact arithmetic with one undefined value at most, which every operation passes on.  Then
the laws of an ordered field hold of all scalars as far as no quotient is concerned, the
undefined one included.

* `StrictScalar` : the laws;
* `larger_ofReal`, `literal_eq`, … : extremes and decimal fractions of real numbers;
* `eq_of_strict` : an equation holds if it does among real numbers;
* `neg_sub_neg`, `neg_lt_neg`, … : opposites of all scalars;
* `lift_lt_lift`, `lift_sub_lift`, … : all scalars raised by the same number;
* `scale_ofReals`, `combine_ofReals`, `difference_ofReals` : vectors of real numbers.
-/
import Descent.Proofs.Exact.Scalars

namespace Descent

open Scalar ExactScalar

/-- The laws of exact arithmetic with one undefined value. -/
class StrictScalar (α : Type) [Scalar α] [ExactScalar α] : Prop where
  /-- There is one undefined value at most. -/
  eq_of_not_finite {a b : α} : isFinite a = false → isFinite b = false → a = b
  /-- Differences. -/
  ofReal_sub (x y : ℝ) : (ofReal (x - y) : α) = ofReal x - ofReal y
  /-- Absolute values. -/
  ofReal_abs (x : ℝ) : (ofReal |x| : α) = Scalar.abs (ofReal x)
  /-- Equality, among real numbers. -/
  beq_iff {a b : α} : (a == b) = true ↔ ∃ x, a = ofReal x ∧ b = ofReal x
  /-- The terms of a finite difference are finite. -/
  isFinite_of_sub {a b : α} : isFinite (a - b) = true → isFinite a = true ∧ isFinite b = true
  /-- What has a finite opposite is finite. -/
  isFinite_of_neg {a : α} : isFinite (-a) = true → isFinite a = true
  /-- The terms of a finite quotient are finite. -/
  isFinite_of_div {a b : α} : isFinite (a / b) = true → isFinite a = true ∧ isFinite b = true

/-- The real numbers have no undefined value. -/
instance StrictScalar.real : StrictScalar ℝ where
  eq_of_not_finite h := absurd h (by simp)
  ofReal_sub _ _ := rfl
  ofReal_abs _ := rfl
  beq_iff {a b} := by
    constructor
    · intro h
      exact ⟨a, rfl, (of_decide_eq_true h).symm⟩
    · rintro ⟨x, rfl, rfl⟩
      exact decide_eq_true rfl
  isFinite_of_sub := by simp
  isFinite_of_neg := by simp
  isFinite_of_div := by simp

open Classical in
/-- The real numbers with an undefined value have one. -/
instance StrictScalar.partialReal : StrictScalar PartialReal where
  eq_of_not_finite {a b} ha hb := by
    cases a with
    | real x => cases ha
    | undefined =>
      cases b with
      | real y => cases hb
      | undefined => rfl
  ofReal_sub _ _ := rfl
  ofReal_abs _ := rfl
  beq_iff {a b} := by
    constructor
    · intro h
      obtain ⟨x, y, ha, hb, hxy⟩ := PartialReal.related_iff.mp (of_decide_eq_true h)
      exact ⟨y, hxy ▸ ha, hb⟩
    · rintro ⟨x, rfl, rfl⟩
      exact decide_eq_true (PartialReal.related_iff.mpr ⟨x, x, rfl, rfl, rfl⟩)
  isFinite_of_sub := PartialReal.isReal_of_lift₂
  isFinite_of_neg {a} h := by
    cases a with
    | real x => rfl
    | undefined => cases h
  isFinite_of_div := PartialReal.isReal_of_lift₂

namespace StrictScalar

/-! ## Scalars of real numbers -/

section Exact

variable {α : Type} [Scalar α] [ExactScalar α]

/-- A decimal fraction is the scalar of a quotient. -/
theorem literal_eq (mantissa exponent : Nat) :
    (OfScientific.ofScientific mantissa true exponent : α) =
      ofReal ((mantissa : ℝ) / 10 ^ exponent) := by
  rw [← ofReal_ofScientific]
  refine congrArg ofReal ((NNRatCast.ofScientific_eq_ite mantissa true exponent).trans ?_)
  rw [if_pos rfl, NNRat.divNat_eq_div]
  push_cast
  rfl

theorem larger_ofReal (x y : ℝ) : larger (ofReal x : α) (ofReal y) = ofReal (max x y) := by
  rcases le_or_gt x y with h | h
  · rw [larger_eq_right (ofReal_le_ofReal.mpr h), max_eq_right h]
  · rw [larger_eq_left (isNaN_ofReal x) (by simpa using h), max_eq_left h.le]

theorem smaller_ofReal (x y : ℝ) : smaller (ofReal x : α) (ofReal y) = ofReal (min x y) := by
  rcases le_or_gt y x with h | h
  · rw [smaller_eq_right (ofReal_le_ofReal.mpr h), min_eq_right h]
  · rw [smaller_eq_left (isNaN_ofReal x) (by simpa using h), min_eq_left h.le]

theorem larger_real (x y : ℝ) : larger x y = max x y :=
  larger_ofReal (α := ℝ) x y

theorem smaller_real (x y : ℝ) : smaller x y = min x y :=
  smaller_ofReal (α := ℝ) x y

/-- Whatever is moved between two real numbers is one. -/
theorem exists_clamped (a : α) {m M : ℝ} (h : m ≤ M) :
    ∃ s, smaller (larger a (ofReal m)) (ofReal M) = ofReal s ∧ m ≤ s ∧ s ≤ M := by
  cases ha : isFinite a with
  | true =>
    obtain ⟨x, rfl⟩ := isFinite_iff.mp ha
    rw [larger_ofReal, smaller_ofReal]
    exact ⟨_, rfl, le_min (le_max_right x m) h, min_le_right _ M⟩
  | false =>
    have hnan : isNaN a = true := by rw [isNaN_eq, ha]; rfl
    rw [larger, if_pos hnan, smaller_ofReal, min_eq_left h]
    exact ⟨m, rfl, le_rfl, h⟩

end Exact

/-! ## Sums and products of all scalars -/

variable {α : Type} [Scalar α] [ExactScalar α] [StrictScalar α]

/-- Two scalars are equal if they are finite together and equal then. -/
theorem eq_of_strict {a b : α} (h : isFinite a = isFinite b) (heq : isFinite a = true → a = b) :
    a = b := by
  cases ha : isFinite a with
  | true => exact heq ha
  | false => exact eq_of_not_finite ha (h ▸ ha)

omit [StrictScalar α] in
/-- Sums are finite where their terms are. -/
@[simp] theorem isFinite_add (a b : α) : isFinite (a + b) = (isFinite a && isFinite b) := by
  rw [Bool.eq_iff_iff, Bool.and_eq_true]
  refine ⟨isFinite_of_add, ?_⟩
  rw [isFinite_iff, isFinite_iff]
  rintro ⟨⟨x, rfl⟩, y, rfl⟩
  rw [← ofReal_add, isFinite_ofReal]

omit [StrictScalar α] in
/-- Products are finite where their factors are. -/
@[simp] theorem isFinite_mul (a b : α) : isFinite (a * b) = (isFinite a && isFinite b) := by
  rw [Bool.eq_iff_iff, Bool.and_eq_true]
  refine ⟨isFinite_of_mul, ?_⟩
  rw [isFinite_iff, isFinite_iff]
  rintro ⟨⟨x, rfl⟩, y, rfl⟩
  rw [← ofReal_mul, isFinite_ofReal]

/-- Differences are finite where their terms are. -/
@[simp] theorem isFinite_sub (a b : α) : isFinite (a - b) = (isFinite a && isFinite b) := by
  rw [Bool.eq_iff_iff, Bool.and_eq_true]
  refine ⟨isFinite_of_sub, ?_⟩
  rw [isFinite_iff, isFinite_iff]
  rintro ⟨⟨x, rfl⟩, y, rfl⟩
  rw [← ofReal_sub, isFinite_ofReal]

/-- Opposites are finite together. -/
@[simp] theorem isFinite_neg (a : α) : isFinite (-a) = isFinite a := by
  rw [Bool.eq_iff_iff]
  refine ⟨isFinite_of_neg, ?_⟩
  rw [isFinite_iff]
  rintro ⟨x, rfl⟩
  rw [← ofReal_neg, isFinite_ofReal]

@[simp] theorem isNaN_neg (a : α) : isNaN (-a) = isNaN a := by
  rw [isNaN_eq, isNaN_eq, isFinite_neg]

/-- The terms of a sum can be exchanged. -/
protected theorem add_comm (a b : α) : a + b = b + a := by
  refine eq_of_strict (by simp [Bool.and_comm]) fun h => ?_
  simp only [isFinite_add, Bool.and_eq_true, isFinite_iff] at h
  obtain ⟨⟨x, rfl⟩, y, rfl⟩ := h
  rw [← ofReal_add, ← ofReal_add, add_comm x y]

/-- The terms of a sum can be grouped in any way. -/
protected theorem add_assoc (a b c : α) : a + b + c = a + (b + c) := by
  refine eq_of_strict (by simp [Bool.and_assoc]) fun h => ?_
  simp only [isFinite_add, Bool.and_eq_true, isFinite_iff] at h
  obtain ⟨⟨⟨x, rfl⟩, y, rfl⟩, z, rfl⟩ := h
  simp only [← ofReal_add, add_assoc x y z]

/-- The order of addition does not matter. -/
instance : Std.Commutative (α := α) (· + ·) := ⟨StrictScalar.add_comm⟩

/-- Neither does the grouping. -/
instance : Std.Associative (α := α) (· + ·) := ⟨StrictScalar.add_assoc⟩

/-- Zero adds nothing. -/
protected theorem add_zero (a : α) : a + ofReal 0 = a := by
  refine eq_of_strict (by simp) fun h => ?_
  simp only [isFinite_add, Bool.and_eq_true, isFinite_iff] at h
  obtain ⟨⟨x, rfl⟩, -⟩ := h
  rw [← ofReal_add, add_zero]

protected theorem zero_add (a : α) : 0 + a = a := by
  rw [← ofReal_zero, StrictScalar.add_comm, StrictScalar.add_zero]

/-- The factors of a product can be exchanged. -/
protected theorem mul_comm (a b : α) : a * b = b * a := by
  refine eq_of_strict (by simp [Bool.and_comm]) fun h => ?_
  simp only [isFinite_mul, Bool.and_eq_true, isFinite_iff] at h
  obtain ⟨⟨x, rfl⟩, y, rfl⟩ := h
  rw [← ofReal_mul, ← ofReal_mul, mul_comm x y]

/-- The factors of a product can be grouped in any way. -/
protected theorem mul_assoc (a b c : α) : a * b * c = a * (b * c) := by
  refine eq_of_strict (by simp [Bool.and_assoc]) fun h => ?_
  simp only [isFinite_mul, Bool.and_eq_true, isFinite_iff] at h
  obtain ⟨⟨⟨x, rfl⟩, y, rfl⟩, z, rfl⟩ := h
  simp only [← ofReal_mul, mul_assoc x y z]

/-- The order of multiplication does not matter. -/
instance : Std.Commutative (α := α) (· * ·) := ⟨StrictScalar.mul_comm⟩

/-- Neither does the grouping. -/
instance : Std.Associative (α := α) (· * ·) := ⟨StrictScalar.mul_assoc⟩

/-- One changes nothing. -/
protected theorem mul_one (a : α) : a * 1 = a := by
  rw [← ofReal_one]
  refine eq_of_strict (by simp) fun h => ?_
  simp only [isFinite_mul, Bool.and_eq_true, isFinite_iff] at h
  obtain ⟨⟨x, rfl⟩, -⟩ := h
  rw [← ofReal_mul, mul_one]

/-! ## Opposites -/

omit [StrictScalar α] in
protected theorem neg_zero : (-0 : α) = 0 := by
  rw [← ofReal_zero, ← ofReal_neg, neg_zero]

/-- The opposite of the opposite. -/
protected theorem neg_neg (a : α) : -(-a) = a := by
  refine eq_of_strict (by simp) fun h => ?_
  simp only [isFinite_neg, isFinite_iff] at h
  obtain ⟨x, rfl⟩ := h
  rw [← ofReal_neg, ← ofReal_neg, neg_neg]

/-- Sums of opposites. -/
protected theorem neg_add_neg (a b : α) : -a + -b = -(a + b) := by
  refine eq_of_strict (by simp) fun h => ?_
  simp only [isFinite_add, isFinite_neg, Bool.and_eq_true, isFinite_iff] at h
  obtain ⟨⟨x, rfl⟩, y, rfl⟩ := h
  simp only [← ofReal_neg, ← ofReal_add]
  exact congrArg ofReal (by ring)

/-- Differences of opposites. -/
protected theorem neg_sub_neg (a b : α) : -a - -b = -(a - b) := by
  refine eq_of_strict (by simp) fun h => ?_
  simp only [isFinite_sub, isFinite_neg, Bool.and_eq_true, isFinite_iff] at h
  obtain ⟨⟨x, rfl⟩, y, rfl⟩ := h
  simp only [← ofReal_neg, ← ofReal_sub]
  exact congrArg ofReal (by ring)

/-- Multiples of opposites. -/
protected theorem mul_neg (a b : α) : a * -b = -(a * b) := by
  refine eq_of_strict (by simp) fun h => ?_
  simp only [isFinite_mul, isFinite_neg, Bool.and_eq_true, isFinite_iff] at h
  obtain ⟨⟨x, rfl⟩, y, rfl⟩ := h
  simp only [← ofReal_neg, ← ofReal_mul]
  exact congrArg ofReal (by ring)

/-- Opposite multiples. -/
protected theorem neg_mul (a b : α) : -a * b = -(a * b) := by
  refine eq_of_strict (by simp) fun h => ?_
  simp only [isFinite_mul, isFinite_neg, Bool.and_eq_true, isFinite_iff] at h
  obtain ⟨⟨x, rfl⟩, y, rfl⟩ := h
  simp only [← ofReal_neg, ← ofReal_mul]
  exact congrArg ofReal (by ring)

protected theorem neg_mul_neg (a b : α) : -a * -b = a * b := by
  rw [StrictScalar.neg_mul, StrictScalar.mul_neg, StrictScalar.neg_neg]

/-- Quotients of opposites, by what is not zero. -/
protected theorem neg_div_neg (a : α) {b : α} (hb : b < 0 ∨ 0 < b) : -a / -b = a / b := by
  obtain ⟨y, rfl, hy⟩ : ∃ y, b = ofReal y ∧ y ≠ 0 := by
    rcases hb with hb | hb
    · obtain ⟨y, -, rfl, -⟩ := lt_iff.mp hb
      exact ⟨y, rfl, (ofReal_lt_zero.mp hb).ne⟩
    · obtain ⟨-, y, -, rfl, -⟩ := lt_iff.mp hb
      exact ⟨y, rfl, (zero_lt_ofReal.mp hb).ne'⟩
  cases ha : isFinite a with
  | true =>
    obtain ⟨x, rfl⟩ := isFinite_iff.mp ha
    rw [← ofReal_neg, ← ofReal_neg, ← ofReal_div _ hy, ← ofReal_div _ (neg_ne_zero.mpr hy),
      neg_div_neg_eq]
  | false =>
    have hundefined (b : α) {a : α} (ha : isFinite a = false) : isFinite (a / b) = false := by
      rw [← Bool.not_eq_true]
      intro h
      rw [(isFinite_of_div h).1] at ha
      cases ha
    exact eq_of_not_finite (hundefined _ (by rwa [isFinite_neg])) (hundefined _ ha)

/-- Opposites are ordered the other way round. -/
@[simp] protected theorem neg_lt_neg {a b : α} : -a < -b ↔ b < a := by
  have hmirror {a b : α} (h : b < a) : -a < -b := by
    obtain ⟨x, y, rfl, rfl, hxy⟩ := lt_iff.mp h
    rw [← ofReal_neg, ← ofReal_neg, ofReal_lt_ofReal]
    exact neg_lt_neg hxy
  refine ⟨fun h => ?_, hmirror⟩
  have hback := hmirror h
  rwa [StrictScalar.neg_neg, StrictScalar.neg_neg] at hback

/-- Opposites are ordered the other way round. -/
@[simp] protected theorem neg_le_neg {a b : α} : -a ≤ -b ↔ b ≤ a := by
  have hmirror {a b : α} (h : b ≤ a) : -a ≤ -b := by
    obtain ⟨x, y, rfl, rfl, hxy⟩ := le_iff.mp h
    rw [← ofReal_neg, ← ofReal_neg, ofReal_le_ofReal]
    exact neg_le_neg hxy
  refine ⟨fun h => ?_, hmirror⟩
  have hback := hmirror h
  rwa [StrictScalar.neg_neg, StrictScalar.neg_neg] at hback

@[simp] theorem neg_lt_zero_iff {a : α} : -a < 0 ↔ 0 < a := by
  rw [← StrictScalar.neg_lt_neg (b := -a), StrictScalar.neg_neg, StrictScalar.neg_zero]

@[simp] theorem zero_lt_neg_iff {a : α} : 0 < -a ↔ a < 0 := by
  rw [← StrictScalar.neg_lt_neg (a := -a), StrictScalar.neg_neg, StrictScalar.neg_zero]

/-! ## Scalars raised by the same number -/

omit [StrictScalar α] in
/-- What is raised to a real number is one. -/
theorem eq_ofReal_of_lift {a : α} {d x : ℝ} (h : a + ofReal d = ofReal x) : a = ofReal (x - d) := by
  obtain ⟨ha, -⟩ := isFinite_of_add (h ▸ isFinite_ofReal x)
  obtain ⟨u, rfl⟩ := isFinite_iff.mp ha
  rw [← ofReal_add] at h
  rw [← ofReal_injective h, add_sub_cancel_right]

omit [StrictScalar α] in
/-- Raised scalars are ordered as before. -/
@[simp] theorem lift_lt_lift {a b : α} (d : ℝ) : a + ofReal d < b + ofReal d ↔ a < b := by
  constructor
  · intro h
    obtain ⟨x, y, hx, hy, hxy⟩ := lt_iff.mp h
    rw [eq_ofReal_of_lift hx, eq_ofReal_of_lift hy, ofReal_lt_ofReal]
    exact sub_lt_sub_right hxy d
  · intro h
    obtain ⟨x, y, rfl, rfl, hxy⟩ := lt_iff.mp h
    rw [← ofReal_add, ← ofReal_add, ofReal_lt_ofReal]
    exact add_lt_add_left hxy d

omit [StrictScalar α] in
/-- Raised scalars are ordered as before. -/
@[simp] theorem lift_le_lift {a b : α} (d : ℝ) : a + ofReal d ≤ b + ofReal d ↔ a ≤ b := by
  constructor
  · intro h
    obtain ⟨x, y, hx, hy, hxy⟩ := le_iff.mp h
    rw [eq_ofReal_of_lift hx, eq_ofReal_of_lift hy, ofReal_le_ofReal]
    exact sub_le_sub_right hxy d
  · intro h
    obtain ⟨x, y, rfl, rfl, hxy⟩ := le_iff.mp h
    rw [← ofReal_add, ← ofReal_add, ofReal_le_ofReal]
    exact add_le_add_left hxy d

/-- Raised scalars differ as before. -/
@[simp] theorem lift_sub_lift (a b : α) (d : ℝ) : a + ofReal d - (b + ofReal d) = a - b := by
  refine eq_of_strict (by simp) fun h => ?_
  simp only [isFinite_sub, isFinite_add, Bool.and_eq_true, isFinite_iff] at h
  obtain ⟨⟨⟨x, rfl⟩, -⟩, ⟨y, rfl⟩, -⟩ := h
  simp only [← ofReal_add, ← ofReal_sub]
  exact congrArg ofReal (by ring)

theorem lift_add (a b : α) (d : ℝ) : a + ofReal d + b = a + b + ofReal d := by
  ac_rfl

/-- A raised scalar less another one. -/
theorem lift_sub (a b : α) (d : ℝ) : a + ofReal d - b = a - b + ofReal d := by
  refine eq_of_strict (by simp) fun h => ?_
  simp only [isFinite_sub, isFinite_add, Bool.and_eq_true, isFinite_iff] at h
  obtain ⟨⟨⟨x, rfl⟩, -⟩, y, rfl⟩ := h
  simp only [← ofReal_add, ← ofReal_sub]
  exact congrArg ofReal (by ring)

/-! ## Vectors of real numbers -/

section Vectors

variable {n : Nat}

omit [StrictScalar α] in
theorem scale_ofReals (a : ℝ) (X : Vector ℝ n) :
    scale (ofReal a) (ofReals X : Vector α n) = ofReals (scale a X) := by
  ext i hi
  simp only [getElem_scale, getElem_ofReals, ofReal_mul]

omit [StrictScalar α] in
theorem combine_ofReals (a : ℝ) (X : Vector ℝ n) (b : ℝ) (Y : Vector ℝ n) :
    combine (ofReal a) (ofReals X : Vector α n) (ofReal b) (ofReals Y) =
      ofReals (combine a X b Y) := by
  ext i hi
  simp only [getElem_combine, getElem_ofReals, ofReal_add, ofReal_mul]

theorem difference_ofReals (X Y : Vector ℝ n) :
    difference (ofReals X : Vector α n) (ofReals Y) = ofReals (difference X Y) := by
  ext i hi
  simp only [getElem_difference, getElem_ofReals, ofReal_sub]

end Vectors

end StrictScalar

end Descent
