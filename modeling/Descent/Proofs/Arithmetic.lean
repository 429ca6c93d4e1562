/-
# Laws of rounded arithmetic

What can be said about sums, products and roots that are rounded, with infinite values and
values that are not numbers allowed everywhere.

* `RoundedScalar` : the laws of sums and products;
* `RootScalar` : the laws of sums of squares and their roots;
* `NormScalar` : the laws of magnitudes;
* `SignScalar` : the laws of signs, also of zeros, and of infinite values;
* `zero_le_of_checkTolerance` : what the check of a tolerance says.
-/
import Descent.Config.Validity
import Descent.Proofs.Comparison

namespace Descent

open Scalar OrderedScalar

/-- The laws of sums and products. -/
class RoundedScalar (α : Type) [Scalar α] : Prop extends OrderedScalar α where
  /-- Rounding is monotone: what is added without being positive increases nothing. -/
  le_of_le_add {a b v : α} : v ≤ a + b → ¬ 0 < b → v ≤ a
  /-- Rounding respects signs: a product of factors that are not negative is not
  negative. -/
  mul_not_neg {a b : α} : ¬ a < 0 → ¬ b < 0 → ¬ a * b < 0
  /-- Rounding respects signs: a product of a factor that is not negative with one that
  is not positive is not positive. -/
  mul_not_pos {a b : α} : ¬ a < 0 → ¬ 0 < b → ¬ 0 < a * b
  /-- Finite values can be multiplied and added. -/
  isNaN_add_mul {a b c : α} : isFinite a = true → isFinite b = true → isFinite c = true →
    isNaN (a + b * c) = false

/-- The laws of sums of squares and their roots. -/
class RootScalar (α : Type) [Scalar α] : Prop extends RoundedScalar α where
  /-- Zero is finite. -/
  isFinite_zero : isFinite (0 : α) = true
  /-- Rounding is monotone: sums of scalars that are at least zero decrease nothing. -/
  le_add {a b : α} : 0 ≤ a → 0 ≤ b → a ≤ a + b ∧ b ≤ a + b
  /-- Squares are at least zero. -/
  zero_le_square {a : α} : isFinite a = true → 0 ≤ a * a
  /-- Roots are at least zero. -/
  zero_le_sqrt {a : α} : 0 ≤ a → 0 ≤ sqrt a
  /-- A factor below one decreases a positive root, unless the root is infinite. -/
  le_mul_sqrt_iff {a t : α} : 0 ≤ a → 0 < sqrt a → 0 ≤ t → t < 1 →
    (sqrt a ≤ t * sqrt a ↔ isFinite (sqrt a) = false ∧ 0 < t)

/-- The laws of magnitudes.  Squares of magnitudes below `tiny` may lose bits because they
come too close to zero. -/
class NormScalar (α : Type) [Scalar α] (tiny : outParam α) : Prop extends RootScalar α where
  /-- Zero has no magnitude. -/
  abs_zero_le : abs (0 : α) ≤ 0
  /-- The root of a square is at least what was squared. -/
  abs_le_sqrt {a b : α} : isFinite a = true → tiny ≤ abs a → a * a ≤ b → abs a ≤ sqrt b

/-- The laws of signs and of infinite values.  A comparison with zero does not show the sign of a
zero, but a quotient by it does. -/
class SignScalar (α : Type) [Scalar α] extends RootScalar α where
  /-- The scalar bears no minus sign. -/
  Unsigned : α → Prop
  /-- Zero bears none. -/
  unsigned_zero : Unsigned 0
  /-- A hundredth bears none. -/
  unsigned_hundredth : Unsigned 0.01
  /-- Squares bear none. -/
  unsigned_square (a : α) : Unsigned (a * a)
  /-- Sums bear none if their terms do not. -/
  unsigned_add {a b : α} : Unsigned a → Unsigned b → Unsigned (a + b)
  /-- Products bear none if their factors do not. -/
  unsigned_mul {a b : α} : Unsigned a → Unsigned b → Unsigned (a * b)
  /-- Roots bear none if their squares do not. -/
  unsigned_sqrt {a : α} : Unsigned a → Unsigned (sqrt a)
  /-- Minus one divided by a scalar that bears none is not positive. -/
  not_pos_of_unsigned {a : α} : Unsigned a → ¬ 0 < (-1) / a
  /-- What lies between finite values is finite. -/
  isFinite_of_between {a b v : α} : isFinite a = true → isFinite b = true → a ≤ v → v ≤ b →
    isFinite v = true
  /-- A number that is neither finite nor positive is at most every number. -/
  le_of_not_finite {a b : α} : isNaN a = false → isFinite a = false → ¬ 0 < a → isNaN b = false →
    a ≤ b

/-- Tolerances that pass their check are not negative. -/
theorem zero_le_of_checkTolerance {α : Type} [Scalar α] [RootScalar α] {name : String} {t : α}
    (h : checkTolerance name t = .ok ()) : isFinite t = true ∧ 0 ≤ t := by
  unfold checkTolerance at h
  split at h
  · cases h
  · next hfinite =>
    have hfinite' : isFinite t = true := by simpa using hfinite
    split at h
    · cases h
    · next hneg =>
      exact ⟨hfinite', le_of_not_lt (isNaN_of_isFinite hfinite')
        (isNaN_of_isFinite RootScalar.isFinite_zero) hneg⟩

end Descent
