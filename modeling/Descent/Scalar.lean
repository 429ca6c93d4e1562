/-
# Scalars

The arithmetic that the library computes with.  A scalar type has the four
operations, comparisons, square root and absolute value, and can tell whether a
value is finite and whether it is a number at all.  No laws are assumed, so one
definition serves both binary floating-point precisions and exact arithmetic.

* `Scalar` : the operations;
* `larger`, `smaller` : the extremes of two scalars, passing over a value that
  is not a number.
-/

namespace Descent

/-! ## Operations -/

/-- The operations on a type of scalars; decimal literals such as `0.5` denote
the scalars nearest to them. -/
class Scalar (α : Type) extends Add α, Sub α, Mul α, Div α, Neg α, Zero α, One α,
    OfScientific α, BEq α, LT α, LE α where
  /-- The order `<` can be decided. -/
  decidableLT : DecidableLT α
  /-- The order `≤` can be decided. -/
  decidableLE : DecidableLE α
  /-- The absolute value. -/
  abs : α → α
  /-- The square root. -/
  sqrt : α → α
  /-- Neither infinite nor undefined. -/
  isFinite : α → Bool
  /-- The undefined value that compares with nothing. -/
  isNaN : α → Bool

instance Scalar.instDecidableLT {α : Type} [Scalar α] : DecidableLT α := Scalar.decidableLT

instance Scalar.instDecidableLE {α : Type} [Scalar α] : DecidableLE α := Scalar.decidableLE

/-- Double-precision scalars. -/
instance Scalar.float : Scalar Float where
  decidableLT := inferInstance
  decidableLE := inferInstance
  abs := Float.abs
  sqrt := Float.sqrt
  isFinite := Float.isFinite
  isNaN := Float.isNaN

/-- Single-precision scalars. -/
instance Scalar.float32 : Scalar Float32 where
  decidableLT := inferInstance
  decidableLE := inferInstance
  abs := Float32.abs
  sqrt := Float32.sqrt
  isFinite := Float32.isFinite
  isNaN := Float32.isNaN

namespace Scalar

variable {α : Type} [Scalar α]

/-! ## Extremes -/

/-- The larger of two scalars; a value that is not a number gives way to the
other, and of two equal ones the second is taken, which shows in the sign of a
zero. -/
def larger (a b : α) : α :=
  if isNaN a then b else if a ≤ b then b else a

/-- The smaller of two scalars; a value that is not a number gives way to the
other, and of two equal ones the second is taken, which shows in the sign of a
zero. -/
def smaller (a b : α) : α :=
  if isNaN a then b else if b ≤ a then b else a

/-- A number that is not at most the other is the larger of the two. -/
theorem larger_eq_left {a b : α} (ha : isNaN a = false) (h : ¬ a ≤ b) :
    larger a b = a := by
  simp [larger, ha, h]

/-- A number that is at least the other is the larger of the two. -/
theorem larger_eq_right {a b : α} (h : a ≤ b) : larger a b = b := by
  simp [larger, h]

/-- A number that is not at least the other is the smaller of the two. -/
theorem smaller_eq_left {a b : α} (ha : isNaN a = false) (h : ¬ b ≤ a) :
    smaller a b = a := by
  simp [smaller, ha, h]

/-- A number that is at most the other is the smaller of the two. -/
theorem smaller_eq_right {a b : α} (h : b ≤ a) : smaller a b = b := by
  simp [smaller, h]

end Scalar

end Descent
