/-
# Binary floating-point values

The finite values of a binary format are integer multiples of the least positive one.
Counted in that unit, with infinity counted as the first multiple that is too large,
they are compared like integers.

* `IsCanonical` : the form in which values are unpacked;
* `IsValue` : the values of a format;
* `units` : a value as an integer;
* `compare_eq` : values are compared by their units.
-/
import Mathlib
import Descent.Scalar

namespace Descent.Binary

open Float.Model (Format UnpackedFloat)
open Float.Model.UnpackedFloat

variable {S : Format}

/-! ## Canonical form -/

/-- A finite value is canonical if its mantissa has as many bits as the format allows,
or fewer at the least exponent. -/
inductive IsCanonical (S : Format) : UnpackedFloat → Prop
  /-- An infinite value. -/
  | infinity (s : Sign) : IsCanonical S (.infinity s)
  /-- No number. -/
  | notANumber : IsCanonical S .notANumber
  /-- A zero. -/
  | zero (s : Sign) : IsCanonical S (.zero s)
  /-- Any other value. -/
  | finite (s : Sign) (m : Nat) (e : Int) (hpos : 0 < m) (hm : m < 2 ^ S.mantissaBits)
      (he : S.minExponent ≤ e)
      (hnormal : e = S.minExponent ∨ 2 ^ S.mantissaBitsWithoutImplicit ≤ m) :
    IsCanonical S (.finite s m e hpos)

/-- The number of exponents above the least one that a format has room for. -/
def exponentRange (S : Format) : Nat :=
  2 ^ S.exponentBits - 2

/-- The exponent is not too large for the format. -/
def Fits (S : Format) : UnpackedFloat → Prop
  | .finite _ _ e _ => e < S.minExponent + exponentRange S
  | _ => True

/-- The unpacked values of a format. -/
structure IsValue (S : Format) (u : UnpackedFloat) : Prop where
  /-- The form is canonical. -/
  canonical : IsCanonical S u
  /-- The exponent is not too large. -/
  fits : Fits S u

/-! ## Units -/

/-- The place of an exponent above the least one. -/
def place (S : Format) (e : Int) : Nat :=
  (e - S.minExponent).toNat

/-- The first multiple of the unit that is too large for the format. -/
def overflow (S : Format) : Nat :=
  2 ^ (S.mantissaBitsWithoutImplicit + exponentRange S)

/-- A value as a multiple of the least positive one. -/
def units (S : Format) : UnpackedFloat → Int
  | .infinity s => s.apply (overflow S)
  | .notANumber => 0
  | .zero _ => 0
  | .finite s m e _ => s.apply (m * 2 ^ place S e : Nat)

theorem mantissaBits_eq (S : Format) : S.mantissaBits = S.mantissaBitsWithoutImplicit + 1 := by
  unfold Format.mantissaBits
  omega

/-- Finite values of a format are counted below the overflow. -/
theorem units_lt_overflow {m : Nat} {e : Int} (hm : m < 2 ^ S.mantissaBits)
    (he : S.minExponent ≤ e) (hfits : e < S.minExponent + exponentRange S) :
    m * 2 ^ place S e < overflow S := by
  have hplace : place S e + 1 ≤ exponentRange S := by
    unfold place
    omega
  calc m * 2 ^ place S e < 2 ^ S.mantissaBits * 2 ^ place S e :=
        Nat.mul_lt_mul_of_pos_right hm (Nat.two_pow_pos _)
    _ = 2 ^ (S.mantissaBitsWithoutImplicit + (place S e + 1)) := by
        rw [← Nat.pow_add, mantissaBits_eq]
        congr 1
        omega
    _ ≤ overflow S := Nat.pow_le_pow_right (by omega) (by omega)

/-- A canonical value with a smaller exponent is counted lower. -/
theorem units_lt_of_exponent_lt {m₁ m₂ : Nat} {e₁ e₂ : Int} (hm₁ : m₁ < 2 ^ S.mantissaBits)
    (he₁ : S.minExponent ≤ e₁)
    (hnormal₂ : e₂ = S.minExponent ∨ 2 ^ S.mantissaBitsWithoutImplicit ≤ m₂) (he : e₁ < e₂) :
    m₁ * 2 ^ place S e₁ < m₂ * 2 ^ place S e₂ := by
  have hplace : place S e₁ + 1 ≤ place S e₂ := by
    unfold place
    omega
  have hm₂ : 2 ^ S.mantissaBitsWithoutImplicit ≤ m₂ := by
    rcases hnormal₂ with h | h
    · omega
    · exact h
  calc m₁ * 2 ^ place S e₁ < 2 ^ S.mantissaBits * 2 ^ place S e₁ :=
        Nat.mul_lt_mul_of_pos_right hm₁ (Nat.two_pow_pos _)
    _ = 2 ^ S.mantissaBitsWithoutImplicit * 2 ^ (place S e₁ + 1) := by
        rw [← Nat.pow_add, ← Nat.pow_add, mantissaBits_eq]
        congr 1
        omega
    _ ≤ m₂ * 2 ^ place S e₂ := Nat.mul_le_mul hm₂ (Nat.pow_le_pow_right (by omega) hplace)

/-- Canonical magnitudes are compared by exponent and mantissa. -/
theorem compare_magnitudes {m₁ m₂ : Nat} {e₁ e₂ : Int} (hm₁ : m₁ < 2 ^ S.mantissaBits)
    (hm₂ : m₂ < 2 ^ S.mantissaBits) (he₁ : S.minExponent ≤ e₁) (he₂ : S.minExponent ≤ e₂)
    (hnormal₁ : e₁ = S.minExponent ∨ 2 ^ S.mantissaBitsWithoutImplicit ≤ m₁)
    (hnormal₂ : e₂ = S.minExponent ∨ 2 ^ S.mantissaBitsWithoutImplicit ≤ m₂) :
    (compare e₁ e₂).then (compare m₁ m₂) =
      compare (m₁ * 2 ^ place S e₁) (m₂ * 2 ^ place S e₂) := by
  -- the exponent decides; only at the same exponent the mantissas count
  rcases lt_trichotomy e₁ e₂ with he | he | he
  · rw [compare_lt_iff_lt.mpr he,
      compare_lt_iff_lt.mpr (units_lt_of_exponent_lt hm₁ he₁ hnormal₂ he)]
    rfl
  · subst he
    rw [compare_eq_iff_eq.mpr rfl, Ordering.then]
    rcases lt_trichotomy m₁ m₂ with hm | hm | hm
    · rw [compare_lt_iff_lt.mpr hm,
        compare_lt_iff_lt.mpr (Nat.mul_lt_mul_of_pos_right hm (Nat.two_pow_pos _))]
    · rw [hm, compare_eq_iff_eq.mpr rfl, compare_eq_iff_eq.mpr rfl]
    · rw [compare_gt_iff_gt.mpr hm,
        compare_gt_iff_gt.mpr (Nat.mul_lt_mul_of_pos_right hm (Nat.two_pow_pos _))]
  · rw [compare_gt_iff_gt.mpr he,
      compare_gt_iff_gt.mpr (units_lt_of_exponent_lt hm₂ he₂ hnormal₁ he)]
    rfl

/-! ## Comparison -/

theorem compare_natCast (a b : Nat) : compare (a : Int) (b : Int) = compare a b := by
  rcases lt_trichotomy a b with h | h | h
  · rw [compare_lt_iff_lt.mpr h, compare_lt_iff_lt.mpr (Int.ofNat_lt.mpr h)]
  · rw [h, compare_eq_iff_eq.mpr rfl, compare_eq_iff_eq.mpr rfl]
  · rw [compare_gt_iff_gt.mpr h, compare_gt_iff_gt.mpr (Int.ofNat_lt.mpr h)]

theorem compare_neg (a b : Int) : compare (-a) (-b) = (compare a b).swap := by
  rcases lt_trichotomy a b with h | h | h
  · rw [compare_lt_iff_lt.mpr h, compare_gt_iff_gt.mpr (Int.neg_lt_neg h)]
    rfl
  · rw [h, compare_eq_iff_eq.mpr rfl, compare_eq_iff_eq.mpr rfl]
    rfl
  · rw [compare_gt_iff_gt.mpr h, compare_lt_iff_lt.mpr (Int.neg_lt_neg h)]
    rfl

theorem overflow_pos (S : Format) : (0 : Int) < overflow S := by
  exact_mod_cast Nat.two_pow_pos _

theorem some_lt {x y : Int} (h : x < y) : some Ordering.lt = some (compare x y) := by
  rw [compare_lt_iff_lt.mpr h]

theorem some_gt {x y : Int} (h : y < x) : some Ordering.gt = some (compare x y) := by
  rw [compare_gt_iff_gt.mpr h]

theorem some_eq (x : Int) : some Ordering.eq = some (compare x x) := by
  rw [compare_eq_iff_eq.mpr rfl]

/-- Finite values are compared by their units. -/
theorem compare_finite {s t : Sign} {m m' : Nat} {e e' : Int} {h : 0 < m} {h' : 0 < m'}
    (ha : IsCanonical S (.finite s m e h)) (hb : IsCanonical S (.finite t m' e' h')) :
    (UnpackedFloat.finite s m e h).compare (.finite t m' e' h') =
      some (compare (units S (.finite s m e h)) (units S (.finite t m' e' h'))) := by
  have hunits : (0 : Int) < (m * 2 ^ place S e : Nat) :=
    Int.ofNat_lt.mpr (Nat.mul_pos h (Nat.two_pow_pos _))
  have hunits' : (0 : Int) < (m' * 2 ^ place S e' : Nat) :=
    Int.ofNat_lt.mpr (Nat.mul_pos h' (Nat.two_pow_pos _))
  cases ha with
  | finite _ _ _ _ hm he hnormal =>
    cases hb with
    | finite _ _ _ _ hm' he' hnormal' =>
      have hmagnitudes := compare_magnitudes hm hm' he he' hnormal hnormal'
      -- of two negative values the one with the smaller magnitude is the larger one
      cases s <;> cases t
      · show some (((compare e e').then (compare m m')).swap) = _
        rw [hmagnitudes, ← compare_natCast, ← compare_neg]
        rfl
      · exact some_lt (by simp only [units, Sign.apply]; omega)
      · exact some_gt (by simp only [units, Sign.apply]; omega)
      · show some ((compare e e').then (compare m m')) = _
        rw [hmagnitudes, ← compare_natCast]
        rfl

/-- Values that are numbers are compared by their units. -/
theorem compare_eq {a b : UnpackedFloat} (ha : IsValue S a) (hb : IsValue S b)
    (hna : a.isNaN = false) (hnb : b.isNaN = false) :
    a.compare b = some (compare (units S a) (units S b)) := by
  have hover := overflow_pos S
  obtain ⟨ha, hfa⟩ := ha
  obtain ⟨hb, hfb⟩ := hb
  cases ha with
  | notANumber => cases hna
  | infinity s =>
    cases hb with
    | notANumber => cases hnb
    | infinity t =>
      cases s <;> cases t
      · exact some_eq _
      · exact some_lt (by simp only [units, Sign.apply]; omega)
      · exact some_gt (by simp only [units, Sign.apply]; omega)
      · exact some_eq _
    | zero t =>
      cases s
      · exact some_lt (by simp only [units, Sign.apply]; omega)
      · exact some_gt (by simp only [units, Sign.apply]; omega)
    | finite t m e hpos hm he hnormal =>
      have hlt : ((m * 2 ^ place S e : Nat) : Int) < overflow S :=
        Int.ofNat_lt.mpr (units_lt_overflow hm he hfb)
      cases s <;> cases t
      · exact some_lt (by simp only [units, Sign.apply]; omega)
      · exact some_lt (by simp only [units, Sign.apply]; omega)
      · exact some_gt (by simp only [units, Sign.apply]; omega)
      · exact some_gt (by simp only [units, Sign.apply]; omega)
  | zero s =>
    cases hb with
    | notANumber => cases hnb
    | infinity t =>
      cases t
      · exact some_gt (by simp only [units, Sign.apply]; omega)
      · exact some_lt (by simp only [units, Sign.apply]; omega)
    | zero t => exact some_eq _
    | finite t m e hpos hm he hnormal =>
      have hunits : (0 : Int) < (m * 2 ^ place S e : Nat) :=
        Int.ofNat_lt.mpr (Nat.mul_pos hpos (Nat.two_pow_pos _))
      cases t
      · exact some_gt (by simp only [units, Sign.apply]; omega)
      · exact some_lt (by simp only [units, Sign.apply]; omega)
  | finite s m e hpos hm he hnormal =>
    have hlt : ((m * 2 ^ place S e : Nat) : Int) < overflow S :=
      Int.ofNat_lt.mpr (units_lt_overflow hm he hfa)
    have hunits : (0 : Int) < (m * 2 ^ place S e : Nat) :=
      Int.ofNat_lt.mpr (Nat.mul_pos hpos (Nat.two_pow_pos _))
    cases hb with
    | notANumber => cases hnb
    | infinity t =>
      cases s <;> cases t
      · exact some_gt (by simp only [units, Sign.apply]; omega)
      · exact some_lt (by simp only [units, Sign.apply]; omega)
      · exact some_gt (by simp only [units, Sign.apply]; omega)
      · exact some_lt (by simp only [units, Sign.apply]; omega)
    | zero t =>
      cases s
      · exact some_lt (by simp only [units, Sign.apply]; omega)
      · exact some_gt (by simp only [units, Sign.apply]; omega)
    | finite t m' e' hpos' hm' he' hnormal' =>
      exact compare_finite (.finite s m e hpos hm he hnormal)
        (.finite t m' e' hpos' hm' he' hnormal')

/-- At most, counted in units. -/
theorem le_iff {a b : UnpackedFloat} (ha : IsValue S a) (hb : IsValue S b) :
    a.le b = true ↔ a.isNaN = false ∧ b.isNaN = false ∧ units S a ≤ units S b := by
  unfold UnpackedFloat.le
  cases hna : a.isNaN with
  | true => cases a <;> simp_all [UnpackedFloat.compare, UnpackedFloat.isNaN]
  | false =>
    cases hnb : b.isNaN with
    | true => cases b <;> cases a <;> simp_all [UnpackedFloat.compare, UnpackedFloat.isNaN]
    | false =>
      rw [compare_eq ha hb hna hnb]
      simp [Std.isLE_compare]

/-- Less, counted in units. -/
theorem lt_iff {a b : UnpackedFloat} (ha : IsValue S a) (hb : IsValue S b) :
    a.lt b = true ↔ a.isNaN = false ∧ b.isNaN = false ∧ units S a < units S b := by
  unfold UnpackedFloat.lt
  cases hna : a.isNaN with
  | true => cases a <;> simp_all [UnpackedFloat.compare, UnpackedFloat.isNaN]
  | false =>
    cases hnb : b.isNaN with
    | true => cases b <;> cases a <;> simp_all [UnpackedFloat.compare, UnpackedFloat.isNaN]
    | false =>
      rw [compare_eq ha hb hna hnb]
      simp [compare_lt_iff_lt]

end Descent.Binary
