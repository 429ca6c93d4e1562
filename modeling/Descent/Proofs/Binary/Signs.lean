/-
# Signs

In binary arithmetic a zero has a sign, and the sign of a quotient by zero depends on it.  Sums,
products and roots of values without a minus sign have none, and neither has a square.

* `Plain` : values without a minus sign;
* `Plain.add`, `Plain.mul`, `plain_square`, `Plain.sqrt` : how they behave;
* `signOf?_div_ne_positive` : quotients of a negative value by them;
* `isFinite_iff_units` : which values are finite;
* `QuotientView` : scalars whose quotients are those of a binary format;
* `QuotientView.signScalar` : the laws of signs and of infinite values.
-/
import Descent.Proofs.Binary.Roots

namespace Descent.Binary

open Float.Model (Format UnpackedFloat)
open Float.Model.UnpackedFloat

variable {S : Format}

/-! ## Values without a minus sign -/

/-- The value has no minus sign; what is not a number has none. -/
inductive Plain : UnpackedFloat → Prop
  | notANumber : Plain .notANumber
  | infinity : Plain (.infinity .positive)
  | zero : Plain (.zero .positive)
  | finite (m : Nat) (e : Int) (hpos : 0 < m) : Plain (.finite .positive m e hpos)

/-- A rounded value without a minus sign. -/
theorem plain_roundWithAccuracy (m : Nat) (e : Int) (acc : Accuracy) :
    Plain (roundWithAccuracy S .positive m e acc) := by
  rcases roundWithAccuracy_cases (S := S) .positive m e acc with heq | ⟨m', e', hpos, heq⟩
  · rw [heq]
    exact .zero
  · rw [heq]
    exact .finite m' e' hpos

variable {a b : UnpackedFloat}

/-- What is packed keeps its sign. -/
theorem Plain.repack (h : Plain a) : Plain (repack S a) := by
  cases h with
  | notANumber => rw [repack_notANumber]; exact .notANumber
  | infinity => rw [repack_infinity]; exact .infinity
  | zero => rw [repack_zero]; exact .zero
  | finite m e hpos =>
    rcases repack_finite_cases (S := S) .positive m e hpos with heq | heq | ⟨m', e', hpos', heq⟩
    · rw [heq]; exact .infinity
    · rw [heq]; exact .zero
    · rw [heq]; exact .finite m' e' hpos'

/-- Sums. -/
theorem Plain.add (ha : Plain a) (hb : Plain b) : Plain (add S a b) := by
  cases ha with
  | notANumber => exact .notANumber
  | infinity => cases hb <;> first | exact .notANumber | exact .infinity
  | zero =>
    cases hb with
    | notANumber => exact .notANumber
    | infinity => exact .infinity
    | zero => exact .zero
    | finite m e hpos => exact .finite m e hpos
  | finite m e hpos =>
    cases hb with
    | notANumber => exact .notANumber
    | infinity => exact .infinity
    | zero => exact .finite m e hpos
    | finite m' e' hpos' =>
      -- the integer that is rounded is a sum of two that are not negative
      show Plain (UnpackedFloat.normalize S
        (((decreaseExponent m e (min e e')).1 : Int) + (decreaseExponent m' e' (min e e')).1)
        (min e e') .positive)
      unfold UnpackedFloat.normalize
      split
      · next hneg =>
        rw [Int.compare_eq_lt] at hneg
        omega
      · exact .zero
      · exact plain_roundWithAccuracy ..

/-- Products. -/
theorem Plain.mul (ha : Plain a) (hb : Plain b) : Plain (mul S a b) := by
  cases ha with
  | notANumber => exact .notANumber
  | infinity => cases hb <;> first | exact .notANumber | exact .infinity
  | zero => cases hb <;> first | exact .notANumber | exact .zero
  | finite m e hpos =>
    cases hb with
    | notANumber => exact .notANumber
    | infinity => exact .infinity
    | zero => exact .zero
    | finite m' e' hpos' => exact plain_roundWithAccuracy ..

/-- Squares, of whatever sign. -/
theorem plain_square (a : UnpackedFloat) : Plain (UnpackedFloat.mul S a a) := by
  have hsign (s : Sign) : s * s = .positive := by cases s <;> rfl
  cases a with
  | notANumber => exact .notANumber
  | infinity s =>
    show Plain (.infinity (s * s))
    rw [hsign]
    exact .infinity
  | zero s =>
    show Plain (.zero (s * s))
    rw [hsign]
    exact .zero
  | finite s m e hpos =>
    show Plain (roundWithAccuracy S (s * s) (m * m) (e + e) .exact)
    rw [hsign]
    exact plain_roundWithAccuracy ..

/-- Roots. -/
theorem Plain.sqrt (h : Plain a) : Plain (UnpackedFloat.sqrt S a) := by
  cases h with
  | notANumber => exact .notANumber
  | infinity => exact .infinity
  | zero => exact .zero
  | finite m e hpos => exact plain_roundWithAccuracy ..

/-- A negative value divided by one without a minus sign is not positive. -/
theorem signOf?_div_ne_positive (m : Nat) (e : Int) (hpos : 0 < m) (h : Plain b) :
    signOf? (div S (.finite .negative m e hpos) b) ≠ some .positive := by
  cases h with
  | notANumber => rintro ⟨⟩
  | infinity => rintro ⟨⟩
  | zero => rintro ⟨⟩
  | finite m' e' hpos' =>
    obtain ⟨k, d, acc, hdiv⟩ : ∃ k d acc, div S (.finite .negative m e hpos)
        (.finite .positive m' e' hpos') = roundWithAccuracy S .negative k d acc := ⟨_, _, _, rfl⟩
    rw [hdiv]
    rcases roundWithAccuracy_cases (S := S) .negative k d acc with heq | ⟨k', d', hk, heq⟩
    · rw [heq]
      rintro ⟨⟩
    · rw [heq]
      rintro ⟨⟩

/-! ## Finite values -/

/-- The finite values are the numbers that are counted strictly between the overflows. -/
theorem isFinite_iff_units {u : UnpackedFloat} (hu : IsValue S u) (hnan : u.isNaN = false) :
    u.isFinite = true ↔ -(overflow S : Int) < units S u ∧ units S u < overflow S := by
  have hover := overflow_pos S
  obtain ⟨hcanonical, hfits⟩ := hu
  cases hcanonical with
  | notANumber => cases hnan
  | infinity s =>
    refine iff_of_false Bool.false_ne_true ?_
    cases s <;> simp only [units, Sign.apply] <;> omega
  | zero s =>
    refine iff_of_true rfl ?_
    simp only [units]
    omega
  | finite s m e hpos hm he hnormal =>
    have hlt : ((m * 2 ^ place S e : Nat) : Int) < overflow S :=
      Int.ofNat_lt.mpr (units_lt_overflow hm he hfits)
    refine iff_of_true rfl ?_
    cases s <;> simp only [units, Sign.apply] <;> omega

/-! ## Scalars of a binary format -/

/-- A scalar type whose quotients are those of a binary format. -/
structure QuotientView (α : Type) [Scalar α] (S : Format) extends RootView α S where
  /-- Quotients are rounded. -/
  value_div (a b : α) : value (a / b) = repack S (div S (value a) (value b))
  /-- Minus one. -/
  value_neg_one : ∃ m e hpos, value (-1) = .finite .negative m e hpos
  /-- A hundredth. -/
  plain_hundredth : Plain (value 0.01)

namespace QuotientView

variable {α : Type} [Scalar α] (v : QuotientView α S)

include v

/-- What lies between finite values is finite. -/
theorem isFinite_of_between {a b w : α} (ha : Scalar.isFinite a = true)
    (hb : Scalar.isFinite b = true) (haw : a ≤ w) (hwb : w ≤ b) : Scalar.isFinite w = true := by
  rw [v.le_iff_units] at haw hwb
  obtain ⟨hnana, hnanw, hleft⟩ := haw
  obtain ⟨-, hnanb, hright⟩ := hwb
  rw [v.isNaN_eq] at hnana hnanw hnanb
  rw [v.isFinite_eq] at ha hb ⊢
  rw [isFinite_iff_units (v.isValue a) hnana] at ha
  rw [isFinite_iff_units (v.isValue b) hnanb] at hb
  rw [isFinite_iff_units (v.isValue w) hnanw]
  omega

/-- A number that is neither finite nor positive is at most every number. -/
theorem le_of_not_finite {a b : α} (ha : Scalar.isNaN a = false)
    (hfinite : Scalar.isFinite a = false) (hpos : ¬ 0 < a) (hb : Scalar.isNaN b = false) :
    a ≤ b := by
  have hbounds := units_bounds (v.isValue b)
  have hvalue : v.value a = .infinity .negative := by
    rw [v.isNaN_eq] at ha
    rw [v.isFinite_eq] at hfinite
    rw [v.pos_iff] at hpos
    cases hu : v.value a with
    | notANumber => rw [hu] at ha; cases ha
    | zero s => rw [hu] at hfinite; cases hfinite
    | finite s m e hm => rw [hu] at hfinite; cases hfinite
    | infinity s =>
      cases s with
      | negative => rfl
      | positive =>
        rw [hu] at hpos
        exact absurd rfl hpos
  rw [v.le_iff_units, hvalue]
  exact ⟨ha, hb, hbounds.1⟩

/-- Scalars of a binary format obey the laws of signs. -/
@[reducible] def signScalar : SignScalar α where
  toRootScalar := v.normScalar.toRootScalar
  Unsigned a := Plain (v.value a)
  unsigned_zero := by
    rw [v.value_zero]
    exact .zero
  unsigned_hundredth := v.plain_hundredth
  unsigned_square a := by
    rw [v.value_mul]
    exact (plain_square _).repack
  unsigned_add ha hb := by
    rw [v.value_add]
    exact (ha.add hb).repack
  unsigned_mul ha hb := by
    rw [v.value_mul]
    exact (ha.mul hb).repack
  unsigned_sqrt ha := by
    rw [v.value_sqrt]
    exact ha.sqrt.repack
  not_pos_of_unsigned {a} ha := by
    obtain ⟨m, e, hpos, hone⟩ := v.value_neg_one
    rw [v.pos_iff, v.value_div, hone]
    intro h
    exact signOf?_div_ne_positive m e hpos ha (signOf?_of_repack h)
  isFinite_of_between := v.isFinite_of_between
  le_of_not_finite := v.le_of_not_finite

end QuotientView

/-! ## The two precisions -/

theorem value_div_double (a b : Float) :
    double.value (a / b) = repack .binary64 (div .binary64 (double.value a) (double.value b)) := by
  rfl

theorem value_div_single (a b : Float32) :
    single.value (a / b) = repack .binary32 (div .binary32 (single.value a) (single.value b)) := by
  rfl

/-- Double precision with its quotients. -/
def doubleQuotients : QuotientView Float .binary64 where
  toRootView := doubleRoots
  value_div := value_div_double
  value_neg_one := ⟨_, _, _, rfl⟩
  plain_hundredth := .finite _ _ _

/-- Single precision with its quotients. -/
def singleQuotients : QuotientView Float32 .binary32 where
  toRootView := singleRoots
  value_div := value_div_single
  value_neg_one := ⟨_, _, _, rfl⟩
  plain_hundredth := .finite _ _ _

/-- Double-precision arithmetic obeys the laws of signs. -/
instance signFloat : SignScalar Float := doubleQuotients.signScalar

/-- Single-precision arithmetic obeys the laws of signs. -/
instance signFloat32 : SignScalar Float32 := singleQuotients.signScalar

end Descent.Binary
