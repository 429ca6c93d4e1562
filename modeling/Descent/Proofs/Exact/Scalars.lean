/-
# Exact scalars

Arithmetic in which the finite values are the real numbers and nothing is rounded.  What
has no real value, such as a quotient by zero, is not finite; it compares with nothing,
and no sum or product of it is finite again.

* `ExactScalar` : the laws;
* `ExactScalar.real`, `ExactScalar.partialReal` : the real numbers, where a quotient by
  zero is zero, and the real numbers with an undefined value for it;
* `exists_ofReals` : vectors of finite components are vectors of real numbers;
* `dot_ofReals`, `norm2_ofReals`, … : which are computed with exactly;
* `isFinite_of_isFinite_dot` : nothing undefined is lost in an inner product.
-/
import Mathlib
import Descent.Proofs.Arithmetic
import Descent.Proofs.Exact.Real

namespace Descent

open Scalar

/-- The laws of exact arithmetic. -/
class ExactScalar (α : Type) [Scalar α] where
  /-- The scalar of a real number. -/
  ofReal : ℝ → α
  /-- Different real numbers are different scalars. -/
  ofReal_injective : Function.Injective ofReal
  /-- The finite scalars are the real numbers. -/
  isFinite_iff {a : α} : isFinite a = true ↔ ∃ x, a = ofReal x
  /-- What is not finite is not a number. -/
  isNaN_eq (a : α) : isNaN a = !isFinite a
  /-- Less, among real numbers. -/
  lt_iff {a b : α} : a < b ↔ ∃ x y, a = ofReal x ∧ b = ofReal y ∧ x < y
  /-- At most, among real numbers. -/
  le_iff {a b : α} : a ≤ b ↔ ∃ x y, a = ofReal x ∧ b = ofReal y ∧ x ≤ y
  /-- Zero. -/
  ofReal_zero : ofReal 0 = 0
  /-- One. -/
  ofReal_one : ofReal 1 = 1
  /-- Decimal fractions. -/
  ofReal_ofScientific (mantissa : Nat) (negative : Bool) (exponent : Nat) :
    ofReal (OfScientific.ofScientific mantissa negative exponent) =
      OfScientific.ofScientific mantissa negative exponent
  /-- Opposites. -/
  ofReal_neg (x : ℝ) : ofReal (-x) = -ofReal x
  /-- Sums. -/
  ofReal_add (x y : ℝ) : ofReal (x + y) = ofReal x + ofReal y
  /-- Products. -/
  ofReal_mul (x y : ℝ) : ofReal (x * y) = ofReal x * ofReal y
  /-- Quotients. -/
  ofReal_div (x : ℝ) {y : ℝ} : y ≠ 0 → ofReal (x / y) = ofReal x / ofReal y
  /-- Roots. -/
  ofReal_sqrt {x : ℝ} : 0 ≤ x → ofReal (Real.sqrt x) = sqrt (ofReal x)
  /-- The terms of a finite sum are finite. -/
  isFinite_of_add {a b : α} : isFinite (a + b) = true → isFinite a = true ∧ isFinite b = true
  /-- The factors of a finite product are finite. -/
  isFinite_of_mul {a b : α} : isFinite (a * b) = true → isFinite a = true ∧ isFinite b = true

/-! ## The real numbers -/

/-- The real numbers compute with themselves. -/
noncomputable instance ExactScalar.real : ExactScalar ℝ where
  ofReal := id
  ofReal_injective := Function.injective_id
  isFinite_iff := by simp
  isNaN_eq := by simp
  lt_iff := by simp
  le_iff := by simp
  ofReal_zero := rfl
  ofReal_one := rfl
  ofReal_ofScientific _ _ _ := rfl
  ofReal_neg _ := rfl
  ofReal_add _ _ := rfl
  ofReal_mul _ _ := rfl
  ofReal_div _ _ _ := rfl
  ofReal_sqrt _ := rfl
  isFinite_of_add := by simp
  isFinite_of_mul := by simp

/-! ## The real numbers with an undefined value -/

/-- A real number, or the value of what is undefined. -/
inductive PartialReal where
  /-- A real number. -/
  | real (x : ℝ)
  /-- No number. -/
  | undefined

namespace PartialReal

/-- An operation that is undefined where one of its operands is. -/
def lift₂ (op : ℝ → ℝ → PartialReal) : PartialReal → PartialReal → PartialReal
  | real x, real y => op x y
  | _, _ => undefined

/-- A relation that does not hold where one of its operands is undefined. -/
def Related (r : ℝ → ℝ → Prop) : PartialReal → PartialReal → Prop
  | real x, real y => r x y
  | _, _ => False

/-- An operation that is undefined where its operand is. -/
def lift (op : ℝ → PartialReal) : PartialReal → PartialReal
  | real x => op x
  | undefined => undefined

/-- The value is a real number. -/
def isReal : PartialReal → Bool
  | real _ => true
  | undefined => false

open Classical in
/-- Exact arithmetic: quotients by zero and roots of negative numbers are undefined. -/
noncomputable instance scalar : Scalar PartialReal where
  add := lift₂ fun x y => real (x + y)
  sub := lift₂ fun x y => real (x - y)
  mul := lift₂ fun x y => real (x * y)
  div := lift₂ fun x y => if y = 0 then undefined else real (x / y)
  neg := lift fun x => real (-x)
  zero := real 0
  one := real 1
  ofScientific mantissa negative exponent :=
    real (OfScientific.ofScientific mantissa negative exponent)
  beq a b := decide (Related (· = ·) a b)
  lt := Related (· < ·)
  le := Related (· ≤ ·)
  decidableLT := fun _ _ => Classical.propDecidable _
  decidableLE := fun _ _ => Classical.propDecidable _
  abs := lift fun x => real |x|
  sqrt := lift fun x => if x < 0 then undefined else real (Real.sqrt x)
  isFinite := isReal
  isNaN a := !a.isReal

/-- Related values are real numbers. -/
theorem related_iff {r : ℝ → ℝ → Prop} {a b : PartialReal} :
    Related r a b ↔ ∃ x y, a = real x ∧ b = real y ∧ r x y := by
  constructor
  · intro h
    cases a with
    | undefined => exact h.elim
    | real x =>
      cases b with
      | undefined => exact h.elim
      | real y => exact ⟨x, y, rfl, rfl, h⟩
  · rintro ⟨x, y, rfl, rfl, h⟩
    exact h

/-- The operands of a defined result are defined. -/
theorem isReal_of_lift₂ {op : ℝ → ℝ → PartialReal} {a b : PartialReal}
    (h : (lift₂ op a b).isReal = true) : a.isReal = true ∧ b.isReal = true := by
  cases a with
  | undefined => cases h
  | real x =>
    cases b with
    | undefined => cases h
    | real y => exact ⟨rfl, rfl⟩

end PartialReal

/-- The real numbers with an undefined value compute exactly. -/
noncomputable instance ExactScalar.partialReal : ExactScalar PartialReal where
  ofReal := .real
  ofReal_injective := by
    intro x y h
    cases h
    rfl
  isFinite_iff {a} := by
    cases a with
    | real x => exact ⟨fun _ => ⟨x, rfl⟩, fun _ => rfl⟩
    | undefined =>
      constructor
      · intro h
        cases h
      · rintro ⟨x, h⟩
        cases h
  isNaN_eq _ := rfl
  lt_iff := PartialReal.related_iff
  le_iff := PartialReal.related_iff
  ofReal_zero := rfl
  ofReal_one := rfl
  ofReal_ofScientific _ _ _ := rfl
  ofReal_neg _ := rfl
  ofReal_add _ _ := rfl
  ofReal_mul _ _ := rfl
  ofReal_div x y hy := (if_neg hy).symm
  ofReal_sqrt hx := (if_neg (not_lt.mpr hx)).symm
  isFinite_of_add := PartialReal.isReal_of_lift₂
  isFinite_of_mul := PartialReal.isReal_of_lift₂

/-! ## Scalars of real numbers -/

namespace ExactScalar

variable {α : Type} [Scalar α] [ExactScalar α] {n : Nat}

@[simp] theorem isFinite_ofReal (x : ℝ) : isFinite (ofReal x : α) = true :=
  isFinite_iff.mpr ⟨x, rfl⟩

@[simp] theorem isNaN_ofReal (x : ℝ) : isNaN (ofReal x : α) = false := by
  rw [isNaN_eq, isFinite_ofReal]
  rfl

@[simp] theorem ofReal_lt_ofReal {x y : ℝ} : (ofReal x : α) < ofReal y ↔ x < y := by
  rw [lt_iff]
  constructor
  · rintro ⟨x', y', hx, hy, h⟩
    rwa [ofReal_injective hx, ofReal_injective hy]
  · intro h
    exact ⟨x, y, rfl, rfl, h⟩

@[simp] theorem ofReal_le_ofReal {x y : ℝ} : (ofReal x : α) ≤ ofReal y ↔ x ≤ y := by
  rw [le_iff]
  constructor
  · rintro ⟨x', y', hx, hy, h⟩
    rwa [ofReal_injective hx, ofReal_injective hy]
  · intro h
    exact ⟨x, y, rfl, rfl, h⟩

@[simp] theorem ofReal_lt_zero {x : ℝ} : (ofReal x : α) < 0 ↔ x < 0 := by
  rw [← ofReal_zero, ofReal_lt_ofReal]

@[simp] theorem zero_lt_ofReal {x : ℝ} : (0 : α) < ofReal x ↔ 0 < x := by
  rw [← ofReal_zero, ofReal_lt_ofReal]

@[simp] theorem zero_le_ofReal {x : ℝ} : (0 : α) ≤ ofReal x ↔ 0 ≤ x := by
  rw [← ofReal_zero, ofReal_le_ofReal]

/-- Positive scalars are positive real numbers. -/
theorem exists_of_pos {a : α} (h : 0 < a) : ∃ x, a = ofReal x ∧ 0 < x := by
  obtain ⟨-, x, -, rfl, -⟩ := lt_iff.mp h
  exact ⟨x, rfl, zero_lt_ofReal.mp h⟩

/-- A quotient of positive scalars is positive. -/
theorem pos_div {a b : α} (ha : 0 < a) (hb : 0 < b) : 0 < a / b := by
  obtain ⟨x, rfl, hx⟩ := exists_of_pos ha
  obtain ⟨y, rfl, hy⟩ := exists_of_pos hb
  rw [← ofReal_div x hy.ne', zero_lt_ofReal]
  exact div_pos hx hy

/-- A product of positive scalars is positive. -/
theorem pos_mul {a b : α} (ha : 0 < a) (hb : 0 < b) : 0 < a * b := by
  obtain ⟨x, rfl, hx⟩ := exists_of_pos ha
  obtain ⟨y, rfl, hy⟩ := exists_of_pos hb
  rw [← ofReal_mul, zero_lt_ofReal]
  exact mul_pos hx hy

theorem pos_one : (0 : α) < 1 := by
  rw [← ofReal_one, zero_lt_ofReal]
  exact one_pos

/-- The factors of a product that compares with zero are real numbers. -/
theorem exists_of_mul_lt {a b : α} (h : a * b < 0 ∨ 0 < a * b) :
    ∃ x y, a = ofReal x ∧ b = ofReal y := by
  have hfinite : isFinite (a * b) = true := by
    rcases h with h | h
    · obtain ⟨x, -, hx, -⟩ := lt_iff.mp h
      rw [hx, isFinite_ofReal]
    · obtain ⟨-, x, -, hx, -⟩ := lt_iff.mp h
      rw [hx, isFinite_ofReal]
  obtain ⟨ha, hb⟩ := isFinite_of_mul hfinite
  obtain ⟨x, rfl⟩ := isFinite_iff.mp ha
  obtain ⟨y, rfl⟩ := isFinite_iff.mp hb
  exact ⟨x, y, rfl, rfl⟩

/-- Exact scalars are ordered. -/
instance orderedScalar : OrderedScalar α where
  le_trans {a b c} hab hbc := by
    obtain ⟨x, y, rfl, rfl, hxy⟩ := le_iff.mp hab
    obtain ⟨y', z, hy, rfl, hyz⟩ := le_iff.mp hbc
    rw [ofReal_le_ofReal]
    exact hxy.trans (ofReal_injective hy ▸ hyz)
  le_total {a b} ha hb := by
    rw [isNaN_eq, Bool.not_eq_false', isFinite_iff] at ha hb
    obtain ⟨x, rfl⟩ := ha
    obtain ⟨y, rfl⟩ := hb
    rw [ofReal_le_ofReal, ofReal_le_ofReal]
    exact le_total x y
  lt_iff {a b} := by
    constructor
    · intro h
      obtain ⟨x, y, rfl, rfl, hxy⟩ := lt_iff.mp h
      rw [ofReal_le_ofReal, ofReal_le_ofReal]
      exact ⟨hxy.le, not_le.mpr hxy⟩
    · rintro ⟨h, hnot⟩
      obtain ⟨x, y, rfl, rfl, -⟩ := le_iff.mp h
      rw [ofReal_le_ofReal, not_le] at hnot
      exact ofReal_lt_ofReal.mpr hnot
  isNaN_left {a b} h := by
    obtain ⟨x, -, rfl, -⟩ := le_iff.mp h
    exact isNaN_ofReal x
  isNaN_right {a b} h := by
    obtain ⟨-, y, -, rfl, -⟩ := le_iff.mp h
    exact isNaN_ofReal y
  isNaN_of_isFinite {a} h := by
    rw [isNaN_eq, h]
    rfl

/-- Exact scalars meet the laws of rounded arithmetic, without any rounding. -/
instance rootScalar : RootScalar α where
  le_of_le_add {a b v} hle hb := by
    obtain ⟨z, w, rfl, hw, hzw⟩ := le_iff.mp hle
    have hfinite : isFinite (a + b) = true := by rw [hw, isFinite_ofReal]
    obtain ⟨ha', hb'⟩ := isFinite_of_add hfinite
    obtain ⟨x, rfl⟩ := isFinite_iff.mp ha'
    obtain ⟨y, rfl⟩ := isFinite_iff.mp hb'
    rw [zero_lt_ofReal, not_lt] at hb
    rw [← ofReal_add] at hw
    have hsum := ofReal_injective hw
    rw [ofReal_le_ofReal]
    linarith
  mul_not_neg {a b} ha hb hneg := by
    obtain ⟨x, y, rfl, rfl⟩ := exists_of_mul_lt (.inl hneg)
    rw [ofReal_lt_zero, not_lt] at ha hb
    rw [← ofReal_mul, ofReal_lt_zero] at hneg
    exact (mul_nonneg ha hb).not_gt hneg
  mul_not_pos {a b} ha hb hpos := by
    obtain ⟨x, y, rfl, rfl⟩ := exists_of_mul_lt (.inr hpos)
    rw [ofReal_lt_zero, not_lt] at ha
    rw [zero_lt_ofReal, not_lt] at hb
    rw [← ofReal_mul, zero_lt_ofReal] at hpos
    exact (mul_nonpos_of_nonneg_of_nonpos ha hb).not_gt hpos
  isNaN_add_mul {a b c} ha hb hc := by
    obtain ⟨x, rfl⟩ := isFinite_iff.mp ha
    obtain ⟨y, rfl⟩ := isFinite_iff.mp hb
    obtain ⟨z, rfl⟩ := isFinite_iff.mp hc
    rw [← ofReal_mul, ← ofReal_add, isNaN_ofReal]
  isFinite_zero := by rw [← ofReal_zero, isFinite_ofReal]
  le_add {a b} ha hb := by
    obtain ⟨-, x, -, rfl, -⟩ := le_iff.mp ha
    obtain ⟨-, y, -, rfl, -⟩ := le_iff.mp hb
    rw [zero_le_ofReal] at ha hb
    rw [← ofReal_add, ofReal_le_ofReal, ofReal_le_ofReal]
    exact ⟨le_add_of_nonneg_right hb, le_add_of_nonneg_left ha⟩
  zero_le_square {a} ha := by
    obtain ⟨x, rfl⟩ := isFinite_iff.mp ha
    rw [← ofReal_mul, zero_le_ofReal]
    exact mul_self_nonneg x
  zero_le_sqrt {a} ha := by
    obtain ⟨-, x, -, rfl, -⟩ := le_iff.mp ha
    rw [zero_le_ofReal] at ha
    rw [← ofReal_sqrt ha, zero_le_ofReal]
    exact Real.sqrt_nonneg x
  le_mul_sqrt_iff {a t} ha hroot ht htlt := by
    -- neither side holds of real numbers
    obtain ⟨-, x, -, rfl, -⟩ := le_iff.mp ha
    obtain ⟨-, y, -, rfl, -⟩ := le_iff.mp ht
    rw [zero_le_ofReal] at ha
    rw [← ofReal_one, ofReal_lt_ofReal] at htlt
    rw [← ofReal_sqrt ha, zero_lt_ofReal] at hroot
    rw [← ofReal_sqrt ha, ← ofReal_mul, ofReal_le_ofReal, isFinite_ofReal]
    constructor
    · intro hle
      exact absurd hle (not_le.mpr (mul_lt_of_lt_one_left hroot htlt))
    · rintro ⟨h, -⟩
      cases h

/-! ## Vectors of real numbers -/

/-- The vector of scalars of a vector of real numbers. -/
def ofReals (X : Vector ℝ n) : Vector α n :=
  X.map ofReal

@[simp] theorem getElem_ofReals (X : Vector ℝ n) (i : Nat) (hi : i < n) :
    (ofReals X : Vector α n)[i] = ofReal X[i] := by
  simp [ofReals]

theorem ofReals_real (X : Vector ℝ n) : (ofReals X : Vector ℝ n) = X := by
  ext i hi
  exact getElem_ofReals X i hi

/-- A vector of finite components is one of real numbers. -/
theorem exists_ofReals {v : Vector α n} (h : ∀ i (hi : i < n), isFinite v[i] = true) :
    ∃ X : Vector ℝ n, v = ofReals X := by
  choose X hX using fun i : Fin n => isFinite_iff.mp (h i i.isLt)
  refine ⟨Vector.ofFn X, ?_⟩
  ext i hi
  rw [getElem_ofReals, Vector.getElem_ofFn]
  exact hX ⟨i, hi⟩

theorem negate_ofReals (X : Vector ℝ n) : negate (ofReals X : Vector α n) = ofReals (negate X) := by
  ext i hi
  simp only [getElem_negate, getElem_ofReals, ofReal_neg]

theorem toList_products_ofReals (X Y : Vector ℝ n) :
    (Vector.zipWith (· * ·) (ofReals X : Vector α n) (ofReals Y)).toList =
      (Vector.zipWith (· * ·) X Y).toList.map ofReal := by
  refine List.ext_getElem (by simp) ?_
  intro i hi hi'
  simp [ofReal_mul]

theorem dot_ofReals (X Y : Vector ℝ n) :
    dot (ofReals X : Vector α n) (ofReals Y) = ofReal (dot X Y) := by
  rw [dot, dot, map_sumLanes ofReal ofReal_zero ofReal_add, ofReal_zero, toList_products_ofReals]

/-- Inner products over selected components of vectors of real numbers. -/
theorem maskedDot_ofReals (mask : Vector Bool n) (X Y : Vector ℝ n) :
    maskedDot mask (ofReals X : Vector α n) (ofReals Y) = ofReal (maskedDot mask X Y) := by
  have hfold (first : ℝ) (terms : List (Bool × ℝ)) :
      ofReal (terms.foldl (fun total term => if term.1 then total + term.2 else total) first) =
        (terms.map (Prod.map id (ofReal (α := α)))).foldl
          (fun total term => if term.1 then total + term.2 else total) (ofReal first) := by
    induction terms generalizing first with
    | nil => rfl
    | cons term terms ih =>
      rw [List.foldl_cons, ih, List.map_cons, List.foldl_cons, Prod.map_fst, id_eq, Prod.map_snd]
      split
      · rw [ofReal_add]
      · rfl
  rw [maskedDot, maskedDot, hfold, ofReal_zero, toList_products_ofReals, List.zip_map_right]

/-- An inner square is not negative. -/
theorem dot_self_nonneg (X : Vector ℝ n) : 0 ≤ dot X X := by
  rw [dot_eq]
  exact Finset.sum_nonneg fun i _ => mul_self_nonneg _

theorem norm2_ofReals (X : Vector ℝ n) :
    norm2 (ofReals X : Vector α n) = ofReal (norm2 X) := by
  rw [norm2, dot_ofReals, ← ofReal_sqrt (dot_self_nonneg X)]
  rfl

/-! ## Nothing undefined is lost -/

/-- The terms of a finite sum from left to right are finite. -/
theorem isFinite_of_isFinite_foldl {first : α} {terms : List α}
    (h : isFinite (terms.foldl (· + ·) first) = true) :
    isFinite first = true ∧ ∀ t ∈ terms, isFinite t = true := by
  induction terms generalizing first with
  | nil =>
    refine ⟨h, ?_⟩
    intro t ht
    cases ht
  | cons term terms ih =>
    obtain ⟨hsum, hrest⟩ := ih h
    obtain ⟨hfirst, hterm⟩ := isFinite_of_add hsum
    exact ⟨hfirst, List.forall_mem_cons.mpr ⟨hterm, hrest⟩⟩

/-- The lanes and the terms of a finite sum in lanes are finite. -/
theorem isFinite_of_isFinite_sumLanes {p₀ p₁ p₂ p₃ p₄ p₅ p₆ p₇ : α} {terms : List α}
    (h : isFinite (sumLanes p₀ p₁ p₂ p₃ p₄ p₅ p₆ p₇ terms) = true) :
    (∀ v ∈ [p₀, p₁, p₂, p₃, p₄, p₅, p₆, p₇], isFinite v = true) ∧
      ∀ t ∈ terms, isFinite t = true := by
  fun_induction sumLanes p₀ p₁ p₂ p₃ p₄ p₅ p₆ p₇ terms with
  | case1 p₀ p₁ p₂ p₃ p₄ p₅ p₆ p₇ a₀ a₁ a₂ a₃ a₄ a₅ a₆ a₇ rest ih =>
    obtain ⟨hlanes, hrest⟩ := ih h
    simp only [List.forall_mem_cons] at hlanes ⊢
    obtain ⟨h₀, h₁, h₂, h₃, h₄, h₅, h₆, h₇, hnil⟩ := hlanes
    -- every lane has taken one term
    obtain ⟨l₀, r₀⟩ := isFinite_of_add h₀
    obtain ⟨l₁, r₁⟩ := isFinite_of_add h₁
    obtain ⟨l₂, r₂⟩ := isFinite_of_add h₂
    obtain ⟨l₃, r₃⟩ := isFinite_of_add h₃
    obtain ⟨l₄, r₄⟩ := isFinite_of_add h₄
    obtain ⟨l₅, r₅⟩ := isFinite_of_add h₅
    obtain ⟨l₆, r₆⟩ := isFinite_of_add h₆
    obtain ⟨l₇, r₇⟩ := isFinite_of_add h₇
    exact ⟨⟨l₀, l₁, l₂, l₃, l₄, l₅, l₆, l₇, by simp⟩, r₀, r₁, r₂, r₃, r₄, r₅, r₆, r₇, hrest⟩
  | case2 p₀ p₁ p₂ p₃ p₄ p₅ p₆ p₇ rest _ =>
    obtain ⟨hfirst, hrest⟩ := isFinite_of_isFinite_foldl h
    -- the lanes are joined in pairs, from left to right
    obtain ⟨t₂, q₃⟩ := isFinite_of_add hfirst
    obtain ⟨t₁, q₂⟩ := isFinite_of_add t₂
    obtain ⟨t₀, q₁⟩ := isFinite_of_add t₁
    obtain ⟨-, q₀⟩ := isFinite_of_add t₀
    obtain ⟨l₀, l₄⟩ := isFinite_of_add q₀
    obtain ⟨l₁, l₅⟩ := isFinite_of_add q₁
    obtain ⟨l₂, l₆⟩ := isFinite_of_add q₂
    obtain ⟨l₃, l₇⟩ := isFinite_of_add q₃
    simp only [List.forall_mem_cons]
    exact ⟨⟨l₀, l₁, l₂, l₃, l₄, l₅, l₆, l₇, by simp⟩, hrest⟩

/-- The components of the factors of a finite inner product are finite. -/
theorem isFinite_of_isFinite_dot {x y : Vector α n} (h : isFinite (dot x y) = true) (i : Nat)
    (hi : i < n) : isFinite x[i] = true ∧ isFinite y[i] = true := by
  obtain ⟨-, hterms⟩ := isFinite_of_isFinite_sumLanes h
  refine isFinite_of_mul (hterms (x[i] * y[i]) ?_)
  rw [Vector.mem_toList_iff, Vector.mem_iff_getElem]
  exact ⟨i, hi, Vector.getElem_zipWith hi⟩

end ExactScalar

end Descent
