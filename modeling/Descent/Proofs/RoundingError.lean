/-
# Rounding errors

Finite scalars stand for real numbers, and what an operation returns differs from the exact result
by a rounding error.

* `MeasuredScalar` : the laws of sums and products;
* `MeasuredScalar.error`, `MeasuredScalar.abs_mul_mul_sub_le` : the error of a product of three
  factors;
* `MeasuredScalar.le_add_mul_mul` : what lies below an exact sum by more than the error.
-/
import Mathlib
import Descent.Proofs.Comparison
import Descent.Proofs.Exact.Real

namespace Descent

open Scalar

/-- The laws of sums and products, measured by the real numbers that finite scalars stand for. -/
class MeasuredScalar (α : Type) [Scalar α] extends OrderedScalar α where
  /-- The number that a finite scalar stands for. -/
  toReal : α → ℝ
  /-- The error of a product relative to its size. -/
  relativeError : ℝ
  /-- The error of a product that is close to zero. -/
  absoluteError : ℝ
  /-- The relative error is not negative. -/
  relativeError_nonneg : 0 ≤ relativeError
  /-- The absolute error is not negative. -/
  absoluteError_nonneg : 0 ≤ absoluteError
  /-- Rounding a sum does not cross a finite scalar. -/
  le_add_of_toReal {a b v : α} : isFinite a = true → isFinite b = true → isFinite v = true →
    toReal v ≤ toReal a + toReal b → v ≤ a + b
  /-- Only finite factors have a finite product. -/
  isFinite_of_mul {a b : α} : isFinite (a * b) = true → isFinite a = true ∧ isFinite b = true
  /-- A finite product is the exact one up to the errors. -/
  abs_mul_sub_le {a b : α} : isFinite (a * b) = true →
    |toReal (a * b) - toReal a * toReal b| ≤
      relativeError * |toReal a * toReal b| + absoluteError

namespace MeasuredScalar

variable {α : Type} [Scalar α] [MeasuredScalar α]

/-- The error of a product of three factors, rounded twice. -/
noncomputable def error (a b c : α) : ℝ :=
  ((1 + relativeError α) ^ 2 - 1) * |toReal a * toReal b * toReal c| +
    (1 + (1 + relativeError α) * |toReal c|) * absoluteError α

/-- A product of three factors is the exact one up to the error. -/
theorem abs_mul_mul_sub_le {a b c : α} (h : isFinite (a * b * c) = true) :
    |toReal (a * b * c) - toReal a * toReal b * toReal c| ≤ error a b c := by
  have hu : 0 ≤ relativeError α := relativeError_nonneg
  have hfirst := abs_mul_sub_le (isFinite_of_mul h).1
  have hsecond := abs_mul_sub_le h
  unfold error
  generalize toReal (a * b * c) = abc at *
  generalize toReal (a * b) = ab at *
  generalize toReal a = x at *
  generalize toReal b = y at *
  generalize toReal c = z at *
  -- the error of the first product is scaled by the third factor
  have hscaled : |ab * z - x * y * z| ≤
      relativeError α * |x * y * z| + absoluteError α * |z| := by
    rw [← sub_mul, abs_mul, abs_mul (x * y)]
    have := mul_le_mul_of_nonneg_right hfirst (abs_nonneg z)
    linarith
  have hsize : |ab * z| ≤ |x * y * z| + |ab * z - x * y * z| := by
    have := abs_add_le (x * y * z) (ab * z - x * y * z)
    rwa [add_sub_cancel] at this
  calc |abc - x * y * z| ≤ |abc - ab * z| + |ab * z - x * y * z| := abs_sub_le _ _ _
    _ ≤ relativeError α * |ab * z| + absoluteError α + |ab * z - x * y * z| := by linarith
    _ ≤ relativeError α * (|x * y * z| + |ab * z - x * y * z|) + absoluteError α +
          |ab * z - x * y * z| := by
        have := mul_le_mul_of_nonneg_left hsize hu
        linarith
    _ = relativeError α * |x * y * z| + absoluteError α +
          (1 + relativeError α) * |ab * z - x * y * z| := by ring
    _ ≤ relativeError α * |x * y * z| + absoluteError α +
          (1 + relativeError α) * (relativeError α * |x * y * z| + absoluteError α * |z|) := by
        have := mul_le_mul_of_nonneg_left hscaled (add_nonneg zero_le_one hu)
        linarith
    _ = ((1 + relativeError α) ^ 2 - 1) * |x * y * z| +
          (1 + (1 + relativeError α) * |z|) * absoluteError α := by ring

/-- What lies below the exact sum by the error is not above the rounded one. -/
theorem le_add_mul_mul {v w a b c : α} (hv : isFinite v = true) (hw : isFinite w = true)
    (h : isFinite (a * b * c) = true)
    (hle : toReal v + error a b c ≤ toReal w + toReal a * toReal b * toReal c) :
    v ≤ w + a * b * c := by
  refine le_add_of_toReal hw h hv ?_
  have hproduct := (abs_le.mp (abs_mul_mul_sub_le h)).1
  linarith

end MeasuredScalar

end Descent
