/-
# Errors of binary arithmetic

A finite value of a binary format is a real number.  A product of two of them is rounded to a
nearest one, so that it is off by at most half a unit in its last place.

* `toReal` : a value as a real number;
* `gridMantissa_near`, `half_step_le` : rounding on a grid, and the step of the grid;
* `abs_repack_mul_sub_le` : the error of a product;
* `units_le_repack_add` : a sum does not cross a value;
* `RootView.measuredScalar` : the laws for all scalars of a binary format.
-/
import Mathlib
import Descent.Proofs.Binary.Roots
import Descent.Proofs.RoundingError

namespace Descent.Binary

open Float.Model (Format UnpackedFloat totalExponent)
open Float.Model.UnpackedFloat

variable {S : Format}

/-! ## Real numbers -/

/-- The least positive value. -/
noncomputable def unit (S : Format) : ℝ := (2 : ℕ) ^ S.minExponent

/-- A finite value as a real number. -/
noncomputable def toReal (S : Format) (u : UnpackedFloat) : ℝ := units S u * unit S

/-- Half a unit in the last place, relative to the value. -/
noncomputable def roundoff (S : Format) : ℝ := ((2 ^ S.mantissaBits : ℕ) : ℝ)⁻¹

/-- Half of the least positive value. -/
noncomputable def halfUnit (S : Format) : ℝ := (2 : ℕ) ^ (S.minExponent - 1)

theorem unit_eq (S : Format) : unit S = 2 ^ S.minExponent := by
  rw [unit, Nat.cast_ofNat]

theorem roundoff_eq (S : Format) : roundoff S = (2 ^ S.mantissaBits)⁻¹ := by
  rw [roundoff, Nat.cast_pow, Nat.cast_ofNat]

theorem unit_pos (S : Format) : 0 < unit S := by
  rw [unit_eq]
  exact zpow_pos two_pos _

theorem halfUnit_eq (S : Format) : halfUnit S = unit S / 2 := by
  rw [halfUnit, unit_eq, Nat.cast_ofNat, zpow_sub_one₀ two_ne_zero, div_eq_mul_inv]

theorem halfUnit_pos (S : Format) : 0 < halfUnit S := by
  rw [halfUnit_eq]
  exact half_pos (unit_pos S)

theorem roundoff_pos (S : Format) : 0 < roundoff S := by
  rw [roundoff_eq]
  exact inv_pos.mpr (pow_pos two_pos _)

theorem apply_eq_mul (s : Sign) (n : ℤ) : s.apply n = s.apply 1 * n := by
  cases s
  · show -n = -1 * n
    rw [neg_one_mul]
  · show n = 1 * n
    rw [one_mul]

theorem apply_mul_one (s t : Sign) : (s * t).apply 1 = s.apply 1 * t.apply 1 := by
  cases s <;> cases t <;> rfl

theorem abs_apply_one (s : Sign) : |((s.apply 1 : ℤ) : ℝ)| = 1 := by
  cases s
  · show |((-1 : ℤ) : ℝ)| = 1
    norm_num
  · show |((1 : ℤ) : ℝ)| = 1
    norm_num

/-- A magnitude in units as a real number. -/
theorem mul_unit (m : Nat) {e : Int} (he : S.minExponent ≤ e) :
    ((m * 2 ^ place S e : Nat) : ℝ) * unit S = m * 2 ^ e := by
  have hplace : (place S e : ℤ) + S.minExponent = e := by
    unfold place
    omega
  rw [Nat.cast_mul, Nat.cast_pow, Nat.cast_ofNat, unit_eq, mul_assoc, ← zpow_natCast (2 : ℝ),
    ← zpow_add₀ two_ne_zero, hplace]

/-- A value with a sign, a mantissa and an exponent as a real number. -/
theorem toReal_of_units {u : UnpackedFloat} {s : Sign} {m : Nat} {e : Int}
    (he : S.minExponent ≤ e) (h : units S u = s.apply (m * 2 ^ place S e : Nat)) :
    toReal S u = (s.apply 1 : ℤ) * (m * 2 ^ e) := by
  rw [toReal, h, apply_eq_mul, Int.cast_mul, Int.cast_natCast, mul_assoc, mul_unit m he]

/-! ## Rounding -/

theorem step_eq_mul {m : Nat} {e : Int} (hgrid : e ≤ grid S m e) :
    (2 : ℝ) ^ grid S m e = 2 ^ (grid S m e - e).toNat * 2 ^ e := by
  have hexponent : ((grid S m e - e).toNat : ℤ) + e = grid S m e := by omega
  rw [← zpow_natCast, ← zpow_add₀ two_ne_zero, hexponent]

/-- A magnitude is off by at most half a step of its grid. -/
theorem gridMantissa_near (m : Nat) {e : Int} (hgrid : e ≤ grid S m e) :
    |(gridMantissa S m e * 2 ^ grid S m e : ℝ) - m * 2 ^ e| ≤ 2 ^ grid S m e / 2 := by
  obtain ⟨habove, hbelow⟩ := rounded_shift_near m (grid S m e - e).toNat
  have hpos : (0 : ℝ) < 2 ^ e := zpow_pos two_pos e
  have habove : (2 * m : ℝ) ≤ (2 * gridMantissa S m e + 1) * 2 ^ (grid S m e - e).toNat := by
    exact_mod_cast habove
  have hbelow : (2 * gridMantissa S m e * 2 ^ (grid S m e - e).toNat : ℝ) ≤
      2 * m + 2 ^ (grid S m e - e).toNat := by
    exact_mod_cast hbelow
  rw [step_eq_mul hgrid, ← mul_assoc, ← sub_mul, abs_mul, abs_of_pos hpos, mul_div_right_comm]
  refine mul_le_mul_of_nonneg_right (abs_le.mpr ⟨?_, ?_⟩) hpos.le
  · linarith
  · linarith

/-- Half a step of the grid is half a unit, or small relative to the magnitude. -/
theorem half_step_le {m : Nat} (hm : 0 < m) {e : Int} (hgrid : e ≤ grid S m e) :
    (2 : ℝ) ^ grid S m e / 2 ≤ roundoff S * (m * 2 ^ e) + halfUnit S := by
  rw [halfUnit_eq]
  have hpos : (0 : ℝ) < 2 ^ e := zpow_pos two_pos e
  have hunit := unit_pos S
  have hroundoff := roundoff_pos S
  have hm' : (0 : ℝ) < m := Nat.cast_pos.mpr hm
  by_cases hleast : grid S m e = S.minExponent
  · have hpart : 0 ≤ roundoff S * (m * 2 ^ e) := by positivity
    rw [hleast]
    exact le_add_of_nonneg_left hpart
  · -- the magnitude has as many bits above its grid as a mantissa
    have hbits : ((2 : ℝ) ^ (S.mantissaBitsWithoutImplicit + (grid S m e - e).toNat)) ≤ m := by
      exact_mod_cast le_of_grid_ne hm hgrid hleast
    have hhalf : (2 : ℝ) ^ grid S m e / 2 ≤ roundoff S * (m * 2 ^ e) := by
      rw [roundoff_eq, mantissaBits_eq, ← div_eq_inv_mul, le_div_iff₀ (pow_pos two_pos _),
        step_eq_mul hgrid]
      calc (2 : ℝ) ^ (grid S m e - e).toNat * 2 ^ e / 2 * 2 ^ (S.mantissaBitsWithoutImplicit + 1)
          = 2 ^ (S.mantissaBitsWithoutImplicit + (grid S m e - e).toNat) * 2 ^ e := by ring
        _ ≤ m * 2 ^ e := mul_le_mul_of_nonneg_right hbits hpos.le
    linarith

/-- A rounded value is off by at most half a unit in its last place. -/
theorem abs_roundWithAccuracy_sub_le (s : Sign) {m : Nat} (hm : 0 < m) {e : Int}
    (hgrid : e ≤ grid S m e) :
    |toReal S (roundWithAccuracy S s m e .exact) - (s.apply 1 : ℤ) * (m * 2 ^ e)| ≤
      roundoff S * (m * 2 ^ e) + halfUnit S := by
  rw [toReal_of_units (minExponent_le_grid S m e) (roundWithAccuracy_units s hm hgrid).2,
    ← mul_sub, abs_mul, abs_apply_one, one_mul]
  exact (gridMantissa_near m hgrid).trans (half_step_le hm hgrid)

/-! ## Products -/

/-- The grid of a product is not finer than the product. -/
theorem le_grid_of_canonical {s t : Sign} {m m' : Nat} {e e' : Int} {h : 0 < m} {h' : 0 < m'}
    (hmin : S.minExponent ≤ 0) (ha : IsCanonical S (.finite s m e h))
    (hb : IsCanonical S (.finite t m' e' h')) :
    e + e' ≤ grid S (m * m') (e + e') := by
  have hleast := minExponent_le_grid S (m * m') (e + e')
  have hlow {n : Nat} (hn : 2 ^ S.mantissaBitsWithoutImplicit ≤ n) (hle : n ≤ m * m') :
      e + e' ≤ grid S (m * m') (e + e') := by
    have hp := mantissaBits_eq S
    have hlog : S.mantissaBitsWithoutImplicit ≤ (m * m').log2 := by
      rw [Nat.le_log2 (Nat.mul_ne_zero (by omega) (by omega))]
      exact hn.trans hle
    unfold grid Format.targetExponent totalExponent
    omega
  cases ha with
  | finite _ _ _ _ hm he hnormal =>
    cases hb with
    | finite _ _ _ _ hm' he' hnormal' =>
      rcases hnormal with rfl | hnormal
      · rcases hnormal' with rfl | hnormal'
        · omega
        · exact hlow hnormal' (Nat.le_mul_of_pos_left m' h)
      · exact hlow hnormal (Nat.le_mul_of_pos_right m h')

/-- A finite result fits. -/
theorem fits_of_isFinite_repack {u : UnpackedFloat} (h : (repack S u).isFinite = true) :
    Fits S u := by
  by_contra hfits
  cases u with
  | finite s m e hpos =>
    rw [repack_of_not_fits hfits] at h
    cases h
  | _ => exact hfits trivial

/-- Only finite values have a finite product. -/
theorem isFinite_of_repack_mul {a b : UnpackedFloat}
    (h : (repack S (mul S a b)).isFinite = true) : a.isFinite = true ∧ b.isFinite = true := by
  cases a with
  | notANumber =>
    rw [show mul S .notANumber b = .notANumber from rfl, repack_notANumber] at h
    cases h
  | infinity s =>
    cases b with
    | notANumber | zero t =>
      rw [show mul S (.infinity s) _ = .notANumber from rfl, repack_notANumber] at h
      cases h
    | infinity t | finite t m e hpos =>
      rw [show mul S (.infinity s) _ = .infinity (s * t) from rfl, repack_infinity] at h
      cases h
  | zero s =>
    cases b with
    | notANumber | infinity t =>
      rw [show mul S (.zero s) _ = .notANumber from rfl, repack_notANumber] at h
      cases h
    | zero t | finite t m e hpos => exact ⟨rfl, rfl⟩
  | finite s m e hpos =>
    cases b with
    | notANumber =>
      rw [show mul S (.finite s m e hpos) .notANumber = .notANumber from rfl,
        repack_notANumber] at h
      cases h
    | infinity t =>
      rw [show mul S (.finite s m e hpos) (.infinity t) = .infinity (s * t) from rfl,
        repack_infinity] at h
      cases h
    | zero t | finite t m' e' hpos' => exact ⟨rfl, rfl⟩

theorem toReal_zero (s : Sign) : toReal S (.zero s) = 0 := by
  rw [toReal]
  show ((0 : ℤ) : ℝ) * unit S = 0
  rw [Int.cast_zero, zero_mul]

/-- The product of two values that are not zero is the exact one up to half a unit in the last
place. -/
theorem abs_mul_finite_sub_le (hmin : S.minExponent ≤ 0) {s t : Sign} {m m' : Nat} {e e' : Int}
    {hm : 0 < m} {hm' : 0 < m'} (ha : IsCanonical S (.finite s m e hm))
    (hb : IsCanonical S (.finite t m' e' hm')) :
    |toReal S (mul S (.finite s m e hm) (.finite t m' e' hm')) -
        toReal S (.finite s m e hm) * toReal S (.finite t m' e' hm')| ≤
      roundoff S * |toReal S (.finite s m e hm) * toReal S (.finite t m' e' hm')| +
        halfUnit S := by
  have hgrid := le_grid_of_canonical hmin ha hb
  have hrounded := abs_roundWithAccuracy_sub_le (S := S) (s * t) (Nat.mul_pos hm hm') hgrid
  have hexact : toReal S (.finite s m e hm) * toReal S (.finite t m' e' hm') =
      ((s * t).apply 1 : ℤ) * ((m * m' : Nat) * 2 ^ (e + e')) := by
    cases ha with
    | finite _ _ _ _ _ he _ =>
      cases hb with
      | finite _ _ _ _ _ he' _ =>
        rw [toReal_of_units he rfl, toReal_of_units he' rfl, apply_mul_one, Int.cast_mul,
          Nat.cast_mul, zpow_add₀ two_ne_zero]
        ring
  have hsize : |toReal S (.finite s m e hm) * toReal S (.finite t m' e' hm')| =
      (m * m' : Nat) * 2 ^ (e + e') := by
    rw [hexact, abs_mul, abs_apply_one, one_mul, abs_of_nonneg]
    positivity
  rw [hsize, hexact]
  exact hrounded

/-- **The error of a product.**  A finite product of values is the exact one up to half a unit in
the last place. -/
theorem abs_repack_mul_sub_le (hmin : S.minExponent ≤ 0) {a b : UnpackedFloat}
    (ha : IsValue S a) (hb : IsValue S b) (h : (repack S (mul S a b)).isFinite = true) :
    |toReal S (repack S (mul S a b)) - toReal S a * toReal S b| ≤
      roundoff S * |toReal S a * toReal S b| + halfUnit S := by
  obtain ⟨hfinite, hfinite'⟩ := isFinite_of_repack_mul h
  -- a product with a zero is a zero
  have hzero {r : Sign} (hproduct : mul S a b = .zero r)
      (hexact : toReal S a * toReal S b = 0) :
      |toReal S (repack S (mul S a b)) - toReal S a * toReal S b| ≤
        roundoff S * |toReal S a * toReal S b| + halfUnit S := by
    rw [hproduct, repack_zero, toReal_zero, hexact, sub_zero, abs_zero, mul_zero, zero_add]
    exact (halfUnit_pos S).le
  cases a with
  | notANumber => cases hfinite
  | infinity s => cases hfinite
  | zero s =>
    have hexact : toReal S (.zero s) * toReal S b = 0 := by rw [toReal_zero, zero_mul]
    cases b with
    | notANumber => cases hfinite'
    | infinity t => cases hfinite'
    | zero t => exact hzero rfl hexact
    | finite t m' e' hm' => exact hzero rfl hexact
  | finite s m e hm =>
    cases b with
    | notANumber => cases hfinite'
    | infinity t => cases hfinite'
    | zero t => exact hzero rfl (by rw [toReal_zero, mul_zero])
    | finite t m' e' hm' =>
      have hgrid := le_grid_of_canonical hmin ha.canonical hb.canonical
      have hcanonical : IsCanonical S (mul S (.finite s m e hm) (.finite t m' e' hm')) :=
        (roundWithAccuracy_units (s * t) (Nat.mul_pos hm hm') hgrid).1
      rw [repack_of_fits hcanonical (fits_of_isFinite_repack h)]
      exact abs_mul_finite_sub_le hmin ha.canonical hb.canonical

/-! ## Sums -/

/-- A rounded integer, with the other sign. -/
theorem RoundsIntTo.neg {w : Nat} {K R : Int} (h : RoundsIntTo w K R) :
    RoundsIntTo w (-K) (-R) := by
  obtain ⟨M, ⟨hK, rfl, hM⟩ | ⟨hK, rfl, hM⟩⟩ := h
  · exact ⟨M, .inr ⟨by omega, rfl, by rwa [Int.neg_neg]⟩⟩
  · exact ⟨M, .inl ⟨by omega, Int.neg_neg _, hM⟩⟩

/-- The number of units of a finite value is representable. -/
theorem representable_of_isFinite {u : UnpackedFloat} (hu : IsValue S u)
    (hfinite : u.isFinite = true) :
    Representable S.mantissaBitsWithoutImplicit (units S u).natAbs := by
  cases hu.canonical with
  | notANumber => cases hfinite
  | infinity s => cases hfinite
  | zero s => exact ⟨0, 0, rfl, Nat.two_pow_pos _⟩
  | finite _ _ _ _ hm _ _ => exact representable_units hm

/-- A result above a value is above it when it is packed. -/
theorem units_le_repack (hS : 1 < S.exponentBits) {u a : UnpackedFloat} (hu : IsCanonical S u)
    (ha : IsValue S a) (hle : units S a ≤ units S u) : units S a ≤ units S (repack S u) := by
  by_cases hfits : Fits S u
  · rw [repack_of_fits hu hfits]
    exact hle
  · cases u with
    | infinity s => exact absurd trivial hfits
    | notANumber => exact absurd trivial hfits
    | zero s => exact absurd trivial hfits
    | finite s m e hpos =>
      have hover := overflow_le hS hu hfits
      rw [repack_of_not_fits hfits]
      cases s
      · simp only [units, Sign.apply] at hle ⊢
        omega
      · exact (units_bounds ha).2

/-- Rounding a sum of finite values does not cross a finite value. -/
theorem units_le_repack_add (hS : 1 < S.exponentBits) {a b v : UnpackedFloat} (ha : IsValue S a)
    (hb : IsValue S b) (hv : IsValue S v) (hfinite : a.isFinite = true)
    (hfinite' : b.isFinite = true) (hfinite'' : v.isFinite = true)
    (hle : units S v ≤ units S a + units S b) : units S v ≤ units S (repack S (add S a b)) := by
  cases a with
  | notANumber => cases hfinite
  | infinity s => cases hfinite
  | zero s =>
    cases b with
    | notANumber => cases hfinite'
    | infinity t => cases hfinite'
    | zero t =>
      obtain ⟨r, hr⟩ : ∃ r, add S (.zero s) (.zero t) = .zero r := by
        cases s <;> cases t <;> exact ⟨_, rfl⟩
      rw [hr, repack_zero]
      exact hle
    | finite t m e h =>
      rw [show add S (.zero s) (.finite t m e h) = .finite t m e h from rfl,
        repack_of_fits hb.canonical hb.fits]
      exact hle.trans (Int.zero_add _).le
  | finite s m e h =>
    cases b with
    | notANumber => cases hfinite'
    | infinity t => cases hfinite'
    | zero t =>
      rw [show add S (.finite s m e h) (.zero t) = .finite s m e h from rfl,
        repack_of_fits ha.canonical ha.fits]
      exact hle.trans (Int.add_zero _).le
    | finite t m' e' h' =>
      cases ha.canonical with
      | finite _ _ _ _ hm he hnormal =>
        cases hb.canonical with
        | finite _ _ _ _ hm' he' hnormal' =>
          obtain ⟨hcanonical, hrounds⟩ := add_spec s t h h' he he'
          refine units_le_repack hS hcanonical hv ?_
          have hrepresentable := representable_of_isFinite hv hfinite''
          rw [← Int.natAbs_neg] at hrepresentable
          have hneg := hrounds.neg.le_of_le hrepresentable (by omega)
          omega

/-! ## Scalars of a binary format -/

namespace RootView

variable {α : Type} [Scalar α] (v : RootView α S)

/-- Rounding a sum does not cross a finite scalar. -/
theorem le_add_of_toReal {a b w : α} (ha : Scalar.isFinite a = true)
    (hb : Scalar.isFinite b = true) (hw : Scalar.isFinite w = true)
    (h : toReal S (v.value w) ≤ toReal S (v.value a) + toReal S (v.value b)) : w ≤ a + b := by
  rw [v.isFinite_eq] at ha hb hw
  rw [v.le_iff_units, v.isNaN_eq, v.isNaN_eq, v.value_add, isNaN_repack]
  refine ⟨isNaN_of_isFinite hw, isNaN_add ha (isNaN_of_isFinite hb), ?_⟩
  refine units_le_repack_add v.hasInfinity (v.isValue a) (v.isValue b) (v.isValue w) ha hb hw ?_
  rw [toReal, toReal, toReal, ← add_mul, mul_le_mul_iff_left₀ (unit_pos S)] at h
  exact_mod_cast h

/-- Scalars of a binary format obey the laws of rounding errors. -/
@[reducible] noncomputable def measuredScalar : MeasuredScalar α where
  toOrderedScalar := v.orderedScalar
  toReal a := toReal S (v.value a)
  relativeError := roundoff S
  absoluteError := halfUnit S
  relativeError_nonneg := (roundoff_pos S).le
  absoluteError_nonneg := (halfUnit_pos S).le
  le_add_of_toReal := v.le_add_of_toReal
  isFinite_of_mul := by
    intro a b h
    rw [v.isFinite_eq, v.value_mul] at h
    rw [v.isFinite_eq, v.isFinite_eq]
    exact isFinite_of_repack_mul h
  abs_mul_sub_le := by
    intro a b h
    rw [v.isFinite_eq, v.value_mul] at h
    rw [v.value_mul]
    exact abs_repack_mul_sub_le (by have := v.wide; omega) (v.isValue a) (v.isValue b) h

end RootView

/-- Double-precision arithmetic obeys the laws of rounding errors: half a unit in the last place
is a 2⁻⁵³ of the value. -/
noncomputable instance measuredFloat : MeasuredScalar Float := doubleRoots.measuredScalar

/-- Single-precision arithmetic obeys the laws of rounding errors: half a unit in the last place
is a 2⁻²⁴ of the value. -/
noncomputable instance measuredFloat32 : MeasuredScalar Float32 := singleRoots.measuredScalar

theorem toReal_double {a : Float} {s : Sign} {m : Nat} {e : Int} {hpos : 0 < m}
    (h : double.value a = .finite s m e hpos) (he : Format.binary64.minExponent ≤ e) :
    MeasuredScalar.toReal a = (s.apply 1 : ℤ) * (m * 2 ^ e) := by
  show toReal .binary64 (double.value a) = _
  rw [h, toReal_of_units he rfl]

end Descent.Binary
