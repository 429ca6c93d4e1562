/-
# Roots

Square roots in binary arithmetic.  The root of a positive value is normal, and it is
rounded to a nearest one; so the root of a square does not fall below what was squared.

* `sqrt_units` : the root of a finite value;
* `le_root_of_square_le` : roots of squares;
* `RootView` : scalars whose roots and absolute values are those of a binary format;
* `RootView.normScalar` : the laws of roots and magnitudes.
-/
import Descent.Proofs.Binary.Nearest

namespace Descent.Binary

open Float.Model (Format UnpackedFloat totalExponent)
open Float.Model.UnpackedFloat

variable {S : Format}

/-! ## The root of a finite value -/

/-- The integer root of `M` and how it relates to the exact one. -/
def rootAccuracy (M : Nat) : Accuracy :=
  if M - M.sqrt * M.sqrt = 0 then .exact
  else .inexact (if M - M.sqrt * M.sqrt ≤ M.sqrt then .lt else .gt)

/-- The integer root, rounded to the nearest integer. -/
def nearestRoot (M : Nat) : Nat :=
  (rootAccuracy M).roundToNearestEven M.sqrt

/-- The rounded root is the integer root or the next integer. -/
theorem nearestRoot_cases (M : Nat) :
    nearestRoot M = M.sqrt ∨ nearestRoot M = M.sqrt + 1 := by
  unfold nearestRoot rootAccuracy
  split
  · exact .inl rfl
  · split
    · exact .inl rfl
    · exact .inr rfl

/-- What lies above the square of a midpoint has a root that is rounded up. -/
theorem le_nearestRoot {M c : Nat} (h : 4 * (c * c) + 1 < 4 * M + 4 * c) : c ≤ nearestRoot M := by
  have hlow := Nat.sqrt_le M
  have hhigh := Nat.lt_succ_sqrt M
  rcases Nat.lt_or_ge M.sqrt c with hlt | hge
  · -- the midpoint is passed, so the rest is larger than the root
    have hc : c = M.sqrt + 1 := by
      rw [Nat.succ_eq_add_one] at hhigh
      nlinarith
    have hrest : M.sqrt < M - M.sqrt * M.sqrt := by
      rw [hc] at h
      have hexpand : (M.sqrt + 1) * (M.sqrt + 1) = M.sqrt * M.sqrt + 2 * M.sqrt + 1 := by ring
      omega
    have hup : nearestRoot M = M.sqrt + 1 := by
      unfold nearestRoot rootAccuracy
      rw [if_neg (by omega), if_neg (by omega)]
      rfl
    omega
  · rcases nearestRoot_cases M with heq | heq <;> omega

/-- A mantissa that is on its grid already is rounded by its accuracy alone. -/
theorem roundWithAccuracy_of_grid (s : Sign) {m : Nat} {e : Int} (hgrid : grid S m e = e)
    (acc : Accuracy) :
    roundWithAccuracy S s m e acc = ofRounded S s (acc.roundToNearestEven m) e := by
  have hshift : shiftToTargetExponent S m e acc =
      (ExtendedMantissa.ofMantissaAndAccuracy m acc, e) := by
    show (ExtendedMantissa.ofMantissaAndAccuracy m acc >>> (grid S m e - e).toNat,
      e + ((grid S m e - e).toNat : Int)) = _
    rw [hgrid, Int.sub_self]
    show (_, e + 0) = _
    rw [Int.add_zero]
    rfl
  have hround : (ExtendedMantissa.ofMantissaAndAccuracy m acc).roundedMantissa =
      acc.roundToNearestEven m := by
    cases acc with
    | exact => rfl
    | inexact half => cases half <;> rfl
  unfold roundWithAccuracy
  rw [hshift]
  dsimp only
  rw [hround]
  rfl

/-- The exponent of the root of a magnitude. -/
def rootExponent (S : Format) (m : Nat) (e : Int) : Int :=
  (m.log2 + e + 2) / 2 - S.mantissaBits

/-- The magnitude of which the integer root is taken. -/
def rootMagnitude (S : Format) (m : Nat) (e : Int) : Nat :=
  m * 2 ^ (e - 2 * rootExponent S m e).toNat

section Root

variable {m : Nat} {e : Int} (hm : 0 < m) (hbits : m < 2 ^ S.mantissaBits)
  (he : S.minExponent ≤ e) (hwide : S.minExponent + 2 * S.mantissaBits ≤ 0)

include he hwide in
theorem minExponent_lt_rootExponent : S.minExponent < rootExponent S m e := by
  unfold rootExponent
  omega

include hm hbits in
/-- The magnitude is shifted to the left before its root is taken. -/
theorem two_mul_rootExponent_le : 2 * rootExponent S m e ≤ e := by
  have hp := mantissaBits_eq S
  have hlog : m.log2 < S.mantissaBits := (Nat.log2_lt (by omega)).mpr hbits
  unfold rootExponent
  omega

include hm hbits he hwide in
/-- The root of a magnitude: its mantissa, its exponent and its accuracy. -/
theorem sqrtCore_eq :
    sqrtCore S m e =
      ((rootMagnitude S m e).sqrt, rootExponent S m e, rootAccuracy (rootMagnitude S m e)) := by
  have hnormal := minExponent_lt_rootExponent (m := m) he hwide
  have hshift := two_mul_rootExponent_le (e := e) hm hbits
  have htarget : min (e.ediv 2) (S.targetExponent ((totalExponent m e + 1).ediv 2)) =
      rootExponent S m e := by
    unfold Format.targetExponent totalExponent
    unfold rootExponent at hnormal hshift ⊢
    show min (e / 2) (max ((((m.log2 : Int) + 1 + e) + 1) / 2 - _) _) = _
    omega
  unfold sqrtCore
  simp only [htarget, Nat.shiftLeft_eq]
  rfl

include hm hbits in
/-- The integer root has as many bits as a mantissa. -/
theorem sqrt_rootMagnitude :
    2 ^ S.mantissaBitsWithoutImplicit ≤ (rootMagnitude S m e).sqrt ∧
      (rootMagnitude S m e).sqrt < 2 ^ S.mantissaBits := by
  have hp := mantissaBits_eq S
  have hshift := two_mul_rootExponent_le (e := e) hm hbits
  have hpos : rootMagnitude S m e ≠ 0 :=
    Nat.mul_ne_zero (by omega) (Nat.pos_iff_ne_zero.mp (Nat.two_pow_pos _))
  have hlog : (rootMagnitude S m e).log2 = m.log2 + (e - 2 * rootExponent S m e).toNat :=
    log2_mul_two_pow hm _
  constructor
  · rw [Nat.le_sqrt, ← Nat.pow_add, ← Nat.le_log2 hpos, hlog]
    unfold rootExponent at hshift ⊢
    omega
  · rw [Nat.sqrt_lt, ← Nat.pow_add, ← Nat.log2_lt hpos, hlog]
    unfold rootExponent at hshift ⊢
    omega

include hm hbits he hwide in
/-- **Roots.**  The root of a positive value is canonical, and in units it is the nearest
root on its grid. -/
theorem sqrt_units :
    IsCanonical S (sqrt S (.finite .positive m e hm)) ∧
      units S (sqrt S (.finite .positive m e hm)) =
        (nearestRoot (rootMagnitude S m e) * 2 ^ place S (rootExponent S m e) : Nat) ∧
      2 ^ S.mantissaBitsWithoutImplicit ≤ nearestRoot (rootMagnitude S m e) := by
  have hp := mantissaBits_eq S
  have hnormal := minExponent_lt_rootExponent (m := m) he hwide
  obtain ⟨hlow, hhigh⟩ := sqrt_rootMagnitude (e := e) hm hbits
  have hle : 2 ^ S.mantissaBitsWithoutImplicit ≤ nearestRoot (rootMagnitude S m e) ∧
      nearestRoot (rootMagnitude S m e) ≤ 2 ^ S.mantissaBits := by
    rcases nearestRoot_cases (rootMagnitude S m e) with h | h <;> omega
  have hgrid : grid S (rootMagnitude S m e).sqrt (rootExponent S m e) = rootExponent S m e := by
    have hw := Nat.two_pow_pos S.mantissaBitsWithoutImplicit
    have hlog : (rootMagnitude S m e).sqrt.log2 = S.mantissaBitsWithoutImplicit := by
      rw [Nat.log2_eq_iff (by omega), ← mantissaBits_eq]
      exact ⟨hlow, hhigh⟩
    unfold grid Format.targetExponent totalExponent
    omega
  have hround : sqrt S (.finite .positive m e hm) =
      ofRounded S .positive (nearestRoot (rootMagnitude S m e)) (rootExponent S m e) := by
    show (match sqrtCore S m e with
      | (r, e', acc) => roundWithAccuracy S .positive r e' acc) = _
    rw [sqrtCore_eq hm hbits he hwide]
    exact roundWithAccuracy_of_grid .positive hgrid _
  rw [hround]
  obtain ⟨hcanonical, hunits⟩ := ofRounded_units .positive hle.2 (Int.le_of_lt hnormal) (.inr hle.1)
  exact ⟨hcanonical, hunits, hle.1⟩

include hm hbits he hwide in
/-- **Roots of squares.**  What is at least the rounded square of a value has a root that is
at least the value, if the square is large enough to be normal. -/
theorem le_root_of_square_le {v : Nat} {eᵥ : Int} (hvbits : v < 2 ^ S.mantissaBits)
    (hvnormal : 2 ^ S.mantissaBitsWithoutImplicit ≤ v) (hev : S.minExponent ≤ eᵥ)
    (hsquare : S.minExponent ≤ 2 * eᵥ + S.mantissaBitsWithoutImplicit)
    (hle : gridMantissa S (v * v) (2 * eᵥ) * 2 ^ place S (grid S (v * v) (2 * eᵥ)) ≤
      m * 2 ^ place S e) :
    v * 2 ^ place S eᵥ ≤
      nearestRoot (rootMagnitude S m e) * 2 ^ place S (rootExponent S m e) := by
  have hp := mantissaBits_eq S
  have hgrid := grid_mul_self hvbits hvnormal hsquare
  have hleast := minExponent_le_grid S (v * v) (2 * eᵥ)
  have hshift := two_mul_rootExponent_le (e := e) hm hbits
  obtain ⟨hlow, -⟩ := log2_mul_self hvbits hvnormal
  obtain ⟨-, -, hroot⟩ := sqrt_units hm hbits he hwide
  -- the root has at least as many places as the value
  have hexponent : eᵥ ≤ rootExponent S m e := by
    have hbitsLe := add_le_log2 hm (le_trans (Nat.mul_le_mul_right _
      (le_gridMantissa_mul_self hvbits hvnormal hsquare)) hle)
    unfold place at hbitsLe
    unfold rootExponent
    omega
  rcases Int.lt_or_eq_of_le hexponent with hlt | heq
  · have hplace : place S eᵥ + 1 ≤ place S (rootExponent S m e) := by
      unfold place
      omega
    calc v * 2 ^ place S eᵥ ≤ 2 ^ S.mantissaBits * 2 ^ place S eᵥ :=
          Nat.mul_le_mul_right _ (Nat.le_of_lt hvbits)
      _ = 2 ^ S.mantissaBitsWithoutImplicit * 2 ^ (place S eᵥ + 1) := by
          rw [hp, Nat.pow_succ, Nat.pow_succ]
          ring
      _ ≤ nearestRoot (rootMagnitude S m e) * 2 ^ place S (rootExponent S m e) :=
          Nat.mul_le_mul hroot (Nat.pow_le_pow_right (by omega) hplace)
  · -- on the grid of the value the square is above the midpoint below
    have hnear := square_near hvbits hvnormal hsquare
    have hmagnitude : gridMantissa S (v * v) (2 * eᵥ) *
        2 ^ (grid S (v * v) (2 * eᵥ) - 2 * eᵥ).toNat ≤ rootMagnitude S m e := by
      unfold rootMagnitude
      refine (mul_two_pow_le_iff ?_).mp hle
      unfold place
      omega
    rw [← heq]
    exact Nat.mul_le_mul_right _ (le_nearestRoot (by omega))

end Root

/-! ## Values that are not negative -/

/-- A number that is not negative is a zero, infinite or positive. -/
theorem nonneg_cases {u : UnpackedFloat} (hnan : u.isNaN = false) (h : 0 ≤ units S u) :
    (∃ s, u = .zero s) ∨ u = .infinity .positive ∨ ∃ m e hm, u = .finite .positive m e hm := by
  have hover := overflow_pos S
  cases u with
  | notANumber => cases hnan
  | zero s => exact .inl ⟨s, rfl⟩
  | infinity s =>
    cases s
    · simp only [units, Sign.apply] at h
      omega
    · exact .inr (.inl rfl)
  | finite s m e hm =>
    cases s
    · have hpos : (0 : Int) < (m * 2 ^ place S e : Nat) :=
        Int.ofNat_lt.mpr (Nat.mul_pos hm (Nat.two_pow_pos _))
      simp only [units, Sign.apply] at h
      omega
    · exact .inr (.inr ⟨m, e, hm, rfl⟩)

/-- A result above a value is above it when it is packed, if the value is not negative. -/
theorem le_units_repack {u a : UnpackedFloat} (hu : IsCanonical S u) (ha : IsValue S a)
    (hzero : 0 ≤ units S a) (hle : units S a ≤ units S u) : units S a ≤ units S (repack S u) := by
  by_cases hfits : Fits S u
  · rw [repack_of_fits hu hfits]
    exact hle
  · cases u with
    | infinity s => exact absurd trivial hfits
    | notANumber => exact absurd trivial hfits
    | zero s => exact absurd trivial hfits
    | finite s m e hpos =>
      rw [repack_of_not_fits hfits]
      cases s
      · have hpositive : (0 : Int) < (m * 2 ^ place S e : Nat) :=
          Int.ofNat_lt.mpr (Nat.mul_pos hpos (Nat.two_pow_pos _))
        have hunits : units S (.finite .negative m e hpos) = -(m * 2 ^ place S e : Nat) := rfl
        omega
      · exact (units_bounds ha).2

/-- A result that does not fit comes back as infinity, with its sign. -/
theorem repack_eq_infinity {u : UnpackedFloat} (hu : IsCanonical S u) (hzero : 0 ≤ units S u)
    (hfits : ¬ Fits S u) : repack S u = .infinity .positive := by
  have hover := overflow_pos S
  have hvalue : IsValue S (.zero .positive) := ⟨.zero .positive, trivial⟩
  have hpacked : 0 ≤ units S (repack S u) := le_units_repack hu hvalue (Int.le_refl 0) hzero
  cases u with
  | finite s m e hpos =>
    rw [repack_of_not_fits hfits] at hpacked ⊢
    cases s
    · simp only [units, Sign.apply] at hpacked
      omega
    · rfl
  | _ => exact absurd trivial hfits

/-- A positive result below a value stays below it when it is packed. -/
theorem units_repack_lt (hS : 1 < S.exponentBits) {u a : UnpackedFloat} (hu : IsCanonical S u)
    (ha : IsValue S a) (hzero : 0 ≤ units S u) (hlt : units S u < units S a) :
    units S (repack S u) < units S a := by
  by_cases hfits : Fits S u
  · rw [repack_of_fits hu hfits]
    exact hlt
  · cases u with
    | infinity s => exact absurd trivial hfits
    | notANumber => exact absurd trivial hfits
    | zero s => exact absurd trivial hfits
    | finite s m e hpos =>
      have hover := overflow_le hS hu hfits
      have hbounds := units_bounds ha
      have hpositive : (0 : Int) < (m * 2 ^ place S e : Nat) :=
        Int.ofNat_lt.mpr (Nat.mul_pos hpos (Nat.two_pow_pos _))
      cases s
      · have hunits : units S (.finite .negative m e hpos) = -(m * 2 ^ place S e : Nat) := rfl
        omega
      · have hunits : units S (.finite .positive m e hpos) = (m * 2 ^ place S e : Nat) := rfl
        omega

/-- A sum of values that are not negative is a number that is at least both of them. -/
theorem le_units_add {a b : UnpackedFloat} (ha : IsValue S a) (hb : IsValue S b)
    (hna : a.isNaN = false) (hnb : b.isNaN = false) (hzeroa : 0 ≤ units S a)
    (hzerob : 0 ≤ units S b) :
    (add S a b).isNaN = false ∧ units S a ≤ units S (repack S (add S a b)) ∧
      units S b ≤ units S (repack S (add S a b)) := by
  rcases nonneg_cases hna hzeroa with ⟨s, rfl⟩ | rfl | ⟨m, e, hm, rfl⟩
  · rcases nonneg_cases hnb hzerob with ⟨t, rfl⟩ | rfl | ⟨m', e', hm', rfl⟩
    · have hsum : ∃ r, add S (.zero s) (.zero t) = .zero r := by
        cases s <;> cases t <;> exact ⟨_, rfl⟩
      obtain ⟨r, hr⟩ := hsum
      rw [hr, repack_zero]
      exact ⟨rfl, Int.le_refl 0, Int.le_refl 0⟩
    · have hsum : add S (.zero s) (.infinity .positive) = .infinity .positive := rfl
      rw [hsum, repack_infinity]
      exact ⟨rfl, hzerob, Int.le_refl _⟩
    · have hsum : add S (.zero s) (.finite .positive m' e' hm') = .finite .positive m' e' hm' := rfl
      rw [hsum, repack_of_fits hb.canonical hb.fits]
      exact ⟨rfl, hzerob, Int.le_refl _⟩
  · have hsum : add S (.infinity .positive) b = .infinity .positive := by
      rcases nonneg_cases hnb hzerob with ⟨t, rfl⟩ | rfl | ⟨m', e', hm', rfl⟩ <;> rfl
    rw [hsum, repack_infinity]
    exact ⟨rfl, Int.le_refl _, (units_bounds hb).2⟩
  · rcases nonneg_cases hnb hzerob with ⟨t, rfl⟩ | rfl | ⟨m', e', hm', rfl⟩
    · have hsum : add S (.finite .positive m e hm) (.zero t) = .finite .positive m e hm := rfl
      rw [hsum, repack_of_fits ha.canonical ha.fits]
      exact ⟨rfl, Int.le_refl _, hzeroa⟩
    · have hsum : add S (.finite .positive m e hm) (.infinity .positive) =
          .infinity .positive := rfl
      rw [hsum, repack_infinity]
      exact ⟨rfl, (units_bounds ha).2, Int.le_refl _⟩
    · -- the exact sum is at least both values, and rounding does not cross a value
      cases ha.canonical with
      | finite _ _ _ _ hbits he hnormal =>
        cases hb.canonical with
        | finite _ _ _ _ hbits' he' hnormal' =>
          obtain ⟨hcanonical, hrounds⟩ := add_spec (S := S) .positive .positive hm hm' he he'
          have hunits : units S (.finite .positive m e hm) = (m * 2 ^ place S e : Nat) := rfl
          have hunits' : units S (.finite .positive m' e' hm') = (m' * 2 ^ place S e' : Nat) := rfl
          rw [mantissaBits_eq] at hbits hbits'
          have hleft : units S (.finite .positive m e hm) ≤
              units S (add S (.finite .positive m e hm) (.finite .positive m' e' hm')) := by
            rw [hunits] at hrounds ⊢
            exact hrounds.ge_of_ge ⟨m, place S e, rfl, hbits⟩ (by omega)
          have hright : units S (.finite .positive m' e' hm') ≤
              units S (add S (.finite .positive m e hm) (.finite .positive m' e' hm')) := by
            rw [hunits'] at hrounds ⊢
            exact hrounds.ge_of_ge ⟨m', place S e', rfl, hbits'⟩ (by omega)
          exact ⟨isNaN_normalize .., le_units_repack hcanonical ha hzeroa hleft,
            le_units_repack hcanonical hb hzerob hright⟩

/-- The root of a value that is not negative is a number that is not negative. -/
theorem zero_le_units_sqrt (hwide : S.minExponent + 2 * S.mantissaBits ≤ 0) {a : UnpackedFloat}
    (ha : IsValue S a) (hnan : a.isNaN = false) (hzero : 0 ≤ units S a) :
    IsCanonical S (sqrt S a) ∧ (sqrt S a).isNaN = false ∧ 0 ≤ units S (sqrt S a) := by
  rcases nonneg_cases hnan hzero with ⟨s, rfl⟩ | rfl | ⟨m, e, hm, rfl⟩
  · exact ⟨.zero s, rfl, Int.le_refl 0⟩
  · exact ⟨.infinity .positive, rfl, hzero⟩
  · cases ha.canonical with
    | finite _ _ _ _ hbits he hnormal =>
      obtain ⟨hcanonical, hunits, hroot⟩ := sqrt_units hm hbits he hwide
      have hpos : (0 : Int) <
          (nearestRoot (rootMagnitude S m e) * 2 ^ place S (rootExponent S m e) : Nat) :=
        Int.ofNat_lt.mpr (Nat.mul_pos (lt_of_lt_of_le (Nat.two_pow_pos _) hroot)
          (Nat.two_pow_pos _))
      refine ⟨hcanonical, ?_, by omega⟩
      cases hsqrt : sqrt S (.finite .positive m e hm) with
      | notANumber =>
        rw [hsqrt] at hunits
        simp only [units] at hunits
        omega
      | _ => rfl

/-- A value of more units than a mantissa can count does not have the least exponent. -/
theorem minExponent_lt_of_le_units {m : Nat} {e : Int} (hbits : m < 2 ^ S.mantissaBits)
    (h : 2 ^ S.mantissaBits ≤ m * 2 ^ place S e) : S.minExponent < e := by
  by_contra hle
  have hplace : place S e = 0 := by
    unfold place
    omega
  rw [hplace, Nat.pow_zero, Nat.mul_one] at h
  omega

/-- A root that is finite and positive is normal, and its exponent is not the least one. -/
theorem normal_of_repack_sqrt (hwide : S.minExponent + 2 * S.mantissaBits ≤ 0)
    {a : UnpackedFloat} (ha : IsValue S a) {m : Nat} {e : Int} {hm : 0 < m}
    (h : repack S (sqrt S a) = .finite .positive m e hm) :
    S.minExponent < e ∧ 2 ^ S.mantissaBitsWithoutImplicit ≤ m ∧ m < 2 ^ S.mantissaBits := by
  have hp := mantissaBits_eq S
  cases ha.canonical with
  | infinity s =>
    cases s
    · rw [show sqrt S (.infinity .negative) = .notANumber from rfl, repack_notANumber] at h
      cases h
    · rw [show sqrt S (.infinity .positive) = .infinity .positive from rfl, repack_infinity] at h
      cases h
  | notANumber =>
    rw [show sqrt S .notANumber = .notANumber from rfl, repack_notANumber] at h
    cases h
  | zero s =>
    rw [show sqrt S (.zero s) = .zero s from rfl, repack_zero] at h
    cases h
  | finite s m' e' hm' hbits he hnormal =>
    cases s with
    | negative =>
      rw [show sqrt S (.finite .negative m' e' hm') = .notANumber from rfl, repack_notANumber] at h
      cases h
    | positive =>
      obtain ⟨hcanonical, hunits, hroot⟩ := sqrt_units hm' hbits he hwide
      have hleast := minExponent_lt_rootExponent (m := m') he hwide
      -- a root that does not fit would have come back as infinity
      have hfits : Fits S (sqrt S (.finite .positive m' e' hm')) := by
        by_contra hfits
        rw [repack_eq_infinity hcanonical (by rw [hunits]; exact Int.natCast_nonneg _) hfits] at h
        cases h
      rw [repack_of_fits hcanonical hfits] at h
      rw [h] at hcanonical hunits
      have hcount : m * 2 ^ place S e =
          nearestRoot (rootMagnitude S m' e') * 2 ^ place S (rootExponent S m' e') :=
        Int.ofNat_inj.mp hunits
      cases hcanonical with
      | finite _ _ _ _ hbits he hnormal =>
        have hexponent : S.minExponent < e := by
          refine minExponent_lt_of_le_units hbits ?_
          calc 2 ^ S.mantissaBits = 2 ^ S.mantissaBitsWithoutImplicit * 2 ^ 1 := by
                rw [hp, Nat.pow_succ, Nat.pow_one]
            _ ≤ nearestRoot (rootMagnitude S m' e') * 2 ^ place S (rootExponent S m' e') := by
                refine Nat.mul_le_mul hroot (Nat.pow_le_pow_right (by omega) ?_)
                unfold place
                omega
            _ = m * 2 ^ place S e := hcount.symm
        exact ⟨hexponent, hnormal.resolve_left (by omega), hbits⟩

/-- The square of a value that is large enough is normal: its units before it is packed. -/
theorem mul_self_units (s : Sign) {m : Nat} {e : Int} (hm : 0 < m) (hbits : m < 2 ^ S.mantissaBits)
    (hnormal : 2 ^ S.mantissaBitsWithoutImplicit ≤ m)
    (he : S.minExponent ≤ 2 * e + S.mantissaBitsWithoutImplicit) :
    IsCanonical S (mul S (.finite s m e hm) (.finite s m e hm)) ∧
      units S (mul S (.finite s m e hm) (.finite s m e hm)) =
        (gridMantissa S (m * m) (2 * e) * 2 ^ place S (grid S (m * m) (2 * e)) : Nat) := by
  have hgrid := grid_mul_self hbits hnormal he
  obtain ⟨hlow, -⟩ := log2_mul_self hbits hnormal
  have hround : mul S (.finite s m e hm) (.finite s m e hm) =
      roundWithAccuracy S .positive (m * m) (2 * e) .exact := by
    show roundWithAccuracy S (s * s) (m * m) (e + e) .exact = _
    rw [← Int.two_mul]
    cases s <;> rfl
  rw [hround]
  exact roundWithAccuracy_units .positive (Nat.mul_pos hm hm) (by omega)

/-- **Roots of squares**, with everything packed. -/
theorem units_le_repack_sqrt (hwide : S.minExponent + 2 * S.mantissaBits ≤ 0)
    {s : Sign} {m : Nat} {e : Int} {hm : 0 < m} (hvalue : IsValue S (.finite s m e hm))
    (hnormal : 2 ^ S.mantissaBitsWithoutImplicit ≤ m)
    (hsquare : S.minExponent ≤ 2 * e + S.mantissaBitsWithoutImplicit) {b : UnpackedFloat}
    (hb : IsValue S b) (hnan : b.isNaN = false)
    (hle : units S (repack S (mul S (.finite s m e hm) (.finite s m e hm))) ≤ units S b) :
    units S (.finite .positive m e hm) ≤ units S (repack S (sqrt S b)) := by
  cases hvalue.canonical with
  | finite _ _ _ _ hbits he _ =>
    obtain ⟨hcanonical, hunits⟩ := mul_self_units s hm hbits hnormal hsquare
    have hpositive : IsValue S (.finite .positive m e hm) :=
      ⟨.finite _ _ _ _ hbits he (.inr hnormal), hvalue.fits⟩
    have hpos : 0 < gridMantissa S (m * m) (2 * e) * 2 ^ place S (grid S (m * m) (2 * e)) :=
      Nat.mul_pos (lt_of_lt_of_le (Nat.two_pow_pos _)
        (le_gridMantissa_mul_self hbits hnormal hsquare)) (Nat.two_pow_pos _)
    have hzero : 0 ≤ units S (.finite .positive m e hm) := Int.natCast_nonneg _
    have hover := overflow_pos S
    have hroot : overflow S ≤ units S b ∨
        (gridMantissa S (m * m) (2 * e) * 2 ^ place S (grid S (m * m) (2 * e)) : Nat) ≤
          units S b := by
      by_cases hfits : Fits S (mul S (.finite s m e hm) (.finite s m e hm))
      · rw [repack_of_fits hcanonical hfits, hunits] at hle
        exact .inr hle
      · rw [repack_eq_infinity hcanonical (by rw [hunits]; exact Int.natCast_nonneg _) hfits] at hle
        exact .inl hle
    rcases nonneg_cases (S := S) hnan (by omega) with ⟨t, rfl⟩ | rfl | ⟨m', e', hm', rfl⟩
    · simp only [units] at hroot
      omega
    · -- only an infinite value is counted as high as an infinite square
      rw [show sqrt S (.infinity .positive) = .infinity .positive from rfl, repack_infinity]
      exact (units_bounds hpositive).2
    · cases hb.canonical with
      | finite _ _ _ _ hbits' he' _ =>
        have hlt := units_lt_overflow hbits' he' hb.fits
        have hcount : units S (.finite .positive m' e' hm') = (m' * 2 ^ place S e' : Nat) := rfl
        obtain ⟨hrootCanonical, hrootUnits, -⟩ := sqrt_units hm' hbits' he' hwide
        refine le_units_repack hrootCanonical hpositive hzero ?_
        rw [hrootUnits]
        exact Int.ofNat_le.mpr (le_root_of_square_le hm' hbits' he' hwide hbits hnormal he hsquare
          (by omega))

/-! ## Scalars with roots -/

/-- A scalar type whose roots and absolute values are those of a binary format, too. -/
structure RootView (α : Type) [Scalar α] (S : Format) extends View α S where
  /-- The format has room for roots. -/
  wide : S.minExponent + 2 * S.mantissaBits ≤ 0
  /-- The format has infinite values. -/
  hasInfinity : 1 < S.exponentBits
  /-- The scalar one. -/
  value_one : value 1 =
    .finite .positive (2 ^ S.mantissaBitsWithoutImplicit) (-S.mantissaBitsWithoutImplicit)
      (Nat.two_pow_pos _)
  /-- Absolute values lose their sign. -/
  value_abs (a : α) : value (Scalar.abs a) = repack S (value a).abs
  /-- Roots are rounded. -/
  value_sqrt (a : α) : value (Scalar.sqrt a) = repack S (sqrt S (value a))
  /-- The least scalar whose square is normal. -/
  tiny : α
  /-- Its exponent. -/
  tinyExponent : Int
  /-- It is a power of two. -/
  value_tiny : value tiny =
    .finite .positive (2 ^ S.mantissaBitsWithoutImplicit) tinyExponent (Nat.two_pow_pos _)
  /-- Its square is normal. -/
  least : S.minExponent ≤ 2 * tinyExponent + S.mantissaBitsWithoutImplicit

namespace RootView

variable {α : Type} [Scalar α] (v : RootView α S)

include v

theorem zero_le_iff (a : α) :
    0 ≤ a ↔ (v.value a).isNaN = false ∧ 0 ≤ units S (v.value a) := by
  rw [v.le_iff_units, v.isNaN_eq, v.isNaN_eq, v.value_zero]
  exact ⟨fun h => h.2, fun h => ⟨rfl, h⟩⟩

/-- The sum of two scalars that are not negative is at least both of them. -/
theorem le_add {a b : α} (ha : 0 ≤ a) (hb : 0 ≤ b) : a ≤ a + b ∧ b ≤ a + b := by
  rw [v.zero_le_iff] at ha hb
  obtain ⟨hnan, hleft, hright⟩ :=
    le_units_add (v.isValue a) (v.isValue b) ha.1 hb.1 ha.2 hb.2
  rw [v.le_iff_units, v.le_iff_units, v.isNaN_eq, v.isNaN_eq, v.isNaN_eq, v.value_add, isNaN_repack]
  exact ⟨⟨ha.1, hnan, hleft⟩, ⟨hb.1, hnan, hright⟩⟩

/-- The square of a finite scalar is not negative. -/
theorem zero_le_square {a : α} (ha : Scalar.isFinite a = true) : 0 ≤ a * a := by
  have hordered := v.orderedScalar
  rw [v.isFinite_eq] at ha
  have hnan : Scalar.isNaN (a * a) = false := by
    rw [v.isNaN_eq, v.value_mul, isNaN_repack]
    exact isNaN_mul ha ha
  have hzero : Scalar.isNaN (0 : α) = false := by
    rw [v.isNaN_eq, v.value_zero]
    rfl
  refine OrderedScalar.le_of_not_lt hnan hzero ?_
  intro hneg
  rw [v.neg_iff] at hneg
  obtain ⟨s, t, hs, ht, hst⟩ := v.signs_of_mul hneg
  obtain rfl : s = t := Option.some.inj (hs.symm.trans ht)
  cases s <;> cases hst

/-- The root of a scalar that is not negative is not negative. -/
theorem zero_le_sqrt {a : α} (ha : 0 ≤ a) : 0 ≤ Scalar.sqrt a := by
  rw [v.zero_le_iff] at ha ⊢
  obtain ⟨hcanonical, hnan, hzero⟩ := zero_le_units_sqrt v.wide (v.isValue a) ha.1 ha.2
  rw [v.value_sqrt, isNaN_repack]
  refine ⟨hnan, ?_⟩
  have hvalue : IsValue S (.zero .positive) := ⟨.zero .positive, trivial⟩
  exact le_units_repack hcanonical hvalue (Int.le_refl 0) hzero

/-- Magnitudes from the least one on are normal, and so are their squares. -/
theorem normal_of_tiny_le {a : α} (hfinite : Scalar.isFinite a = true)
    (htiny : v.tiny ≤ Scalar.abs a) :
    ∃ s m e hm, v.value a = .finite s m e hm ∧ m < 2 ^ S.mantissaBits ∧
      2 ^ S.mantissaBitsWithoutImplicit ≤ m ∧ S.minExponent ≤ e ∧
      S.minExponent ≤ 2 * e + S.mantissaBitsWithoutImplicit := by
  have hw := Nat.two_pow_pos S.mantissaBitsWithoutImplicit
  have hleast := v.least
  have hvalue := v.isValue a
  have hle := ((v.le_iff_units _ _).mp htiny).2.2
  rw [v.isFinite_eq] at hfinite
  rw [v.value_tiny, v.value_abs] at hle
  cases hu : v.value a with
  | infinity s =>
    rw [hu] at hfinite
    cases hfinite
  | notANumber =>
    rw [hu] at hfinite
    cases hfinite
  | zero s =>
    have hpos : 0 < 2 ^ S.mantissaBitsWithoutImplicit * 2 ^ place S v.tinyExponent :=
      Nat.mul_pos hw (Nat.two_pow_pos _)
    rw [hu, show UnpackedFloat.abs (.zero s) = .zero .positive from rfl, repack_zero] at hle
    have hzero : 2 ^ S.mantissaBitsWithoutImplicit * 2 ^ place S v.tinyExponent ≤ 0 :=
      Int.ofNat_le.mp hle
    omega
  | finite s m e hm =>
    rw [hu] at hvalue hle
    cases hvalue.canonical with
    | finite _ _ _ _ hbits he hnormal =>
      have hcanonical : IsCanonical S (.finite .positive m e hm) := .finite _ _ _ _ hbits he hnormal
      rw [show UnpackedFloat.abs (.finite s m e hm) = .finite .positive m e hm from rfl,
        repack_of_fits hcanonical hvalue.fits] at hle
      have hunits : 2 ^ S.mantissaBitsWithoutImplicit * 2 ^ place S v.tinyExponent ≤
          m * 2 ^ place S e := Int.ofNat_le.mp hle
      have hexponent : v.tinyExponent ≤ e := by
        by_contra hlt
        have hcross := units_lt_of_exponent_lt hbits he
          (.inr (Nat.le_refl (2 ^ S.mantissaBitsWithoutImplicit))) (Int.not_le.mp hlt)
        omega
      have himplicit : 2 ^ S.mantissaBitsWithoutImplicit ≤ m := by
        rcases hnormal with heq | hle
        · have hplace : place S e = 0 := by
            unfold place
            omega
          rw [hplace, Nat.pow_zero, Nat.mul_one] at hunits
          exact le_trans (Nat.le_mul_of_pos_right _ (Nat.two_pow_pos _)) hunits
        · exact hle
      exact ⟨s, m, e, hm, rfl, hbits, himplicit, he, by omega⟩

/-- The root of a square is at least what was squared. -/
theorem abs_le_sqrt {a b : α} (ha : Scalar.isFinite a = true) (htiny : v.tiny ≤ Scalar.abs a)
    (hb : a * a ≤ b) : Scalar.abs a ≤ Scalar.sqrt b := by
  obtain ⟨s, m, e, hm, hu, hbits, hnormal, he, hsquare⟩ := v.normal_of_tiny_le ha htiny
  have hvalue := v.isValue a
  rw [hu] at hvalue
  have habs : v.value (Scalar.abs a) = .finite .positive m e hm := by
    rw [v.value_abs, hu]
    exact repack_of_fits (.finite _ _ _ _ hbits he (.inr hnormal)) hvalue.fits
  obtain ⟨-, hnan, hle⟩ := (v.le_iff_units _ _).mp hb
  rw [v.isNaN_eq] at hnan
  rw [v.value_mul, hu] at hle
  have hroot := units_le_repack_sqrt v.wide hvalue hnormal hsquare (v.isValue b) hnan hle
  -- what is at least a square is a number that is not negative, and so is its root
  have hordered := v.orderedScalar
  have hzero : 0 ≤ Scalar.sqrt b :=
    v.zero_le_sqrt (OrderedScalar.le_trans (v.zero_le_square ha) hb)
  rw [v.le_iff_units, v.isNaN_eq, v.isNaN_eq, habs]
  refine ⟨rfl, ((v.zero_le_iff _).mp hzero).1, ?_⟩
  rw [v.value_sqrt]
  exact hroot

/-- A scalar from zero to below one is a zero or a positive value below one. -/
theorem below_one {t : α} (hzero : 0 ≤ t) (hone : t < 1) :
    (∃ s, v.value t = .zero s) ∨
      ∃ m d, ∃ hm : 0 < m, v.value t = .finite .positive m (-(d : Nat)) hm ∧
        m < 2 ^ S.mantissaBits ∧ m < 2 ^ d := by
  have hp := mantissaBits_eq S
  have hwide := v.wide
  have hvalue := v.isValue t
  have hbounds := units_bounds (v.isValue 1)
  obtain ⟨hnan, hunits⟩ := (v.zero_le_iff t).mp hzero
  have hlt := ((v.lt_iff_units _ _).mp hone).2.2
  rcases nonneg_cases hnan hunits with ⟨s, hs⟩ | hinf | ⟨m, e, hm, hfin⟩
  · exact .inl ⟨s, hs⟩
  · rw [hinf] at hlt
    have hover : units S (.infinity .positive) = overflow S := rfl
    omega
  · right
    rw [hfin] at hvalue hlt
    rw [v.value_one] at hlt
    cases hvalue.canonical with
    | finite _ _ _ _ hbits he hnormal =>
      have hcount : m * 2 ^ place S e < 2 ^ S.mantissaBitsWithoutImplicit *
          2 ^ place S (-S.mantissaBitsWithoutImplicit) := Int.ofNat_lt.mp hlt
      rw [← Nat.pow_add] at hcount
      have hneg : e < 0 := by
        by_contra hnonneg
        have hpow : 2 ^ (S.mantissaBitsWithoutImplicit + place S (-S.mantissaBitsWithoutImplicit)) ≤
            2 ^ place S e := by
          refine Nat.pow_le_pow_right (by omega) ?_
          unfold place
          omega
        have hle := Nat.le_mul_of_pos_left (2 ^ place S e) hm
        omega
      have hplaces : S.mantissaBitsWithoutImplicit + place S (-S.mantissaBitsWithoutImplicit) =
          (-e).toNat + place S e := by
        unfold place
        omega
      rw [hplaces, Nat.pow_add] at hcount
      refine ⟨m, (-e).toNat, hm, ?_, hbits, Nat.lt_of_mul_lt_mul_right hcount⟩
      rw [hfin]
      congr 1
      omega

/-- A factor below one decreases a positive root, unless the root is infinite. -/
theorem le_mul_sqrt_iff {a t : α} (ha : 0 ≤ a) (hroot : 0 < Scalar.sqrt a) (hzero : 0 ≤ t)
    (hone : t < 1) :
    Scalar.sqrt a ≤ t * Scalar.sqrt a ↔ Scalar.isFinite (Scalar.sqrt a) = false ∧ 0 < t := by
  have hover := overflow_pos S
  have hvalue := v.isValue (Scalar.sqrt a)
  obtain ⟨hnan, hunits⟩ := (v.zero_le_iff _).mp (v.zero_le_sqrt ha)
  rw [v.pos_iff] at hroot
  rw [v.le_iff_units, v.isNaN_eq, v.isNaN_eq, v.isFinite_eq, v.pos_iff, v.value_mul, isNaN_repack]
  rcases nonneg_cases hnan hunits with ⟨s, hs⟩ | hinf | ⟨m, e, hm, hfin⟩
  · rw [hs] at hroot
    cases hroot
  · rw [hinf]
    rcases v.below_one hzero hone with ⟨s, hs⟩ | ⟨m, d, hm, hfin, -, -⟩
    · -- zero times infinity is not a number
      rw [hs]
      constructor
      · rintro ⟨-, hnan', -⟩
        cases hnan'
      · rintro ⟨-, hpos⟩
        cases hpos
    · rw [hfin]
      have hmul : mul S (.finite .positive m (-(d : Int)) hm) (.infinity .positive) =
          .infinity .positive := rfl
      rw [hmul, repack_infinity]
      exact ⟨fun _ => ⟨rfl, rfl⟩, fun _ => ⟨rfl, rfl, Int.le_refl _⟩⟩
  · obtain ⟨hleast, hnormal, hbits⟩ :=
      normal_of_repack_sqrt v.wide (v.isValue a) (by rw [← v.value_sqrt, hfin])
    rw [hfin] at hvalue ⊢
    constructor
    · rintro ⟨-, -, hle⟩
      rcases v.below_one hzero hone with ⟨s, hs⟩ | ⟨k, d, hk, hs, hkbits, hkone⟩
      · rw [hs, show mul S (.zero s) (.finite .positive m e hm) = .zero (s * .positive) from rfl,
          repack_zero] at hle
        have hpos : 0 < m * 2 ^ place S e := Nat.mul_pos hm (Nat.two_pow_pos _)
        have hcount : m * 2 ^ place S e ≤ 0 := Int.ofNat_le.mp hle
        omega
      · rw [hs] at hle
        obtain ⟨hcanonical, hnonneg, hlt⟩ := mul_units_lt hk hm hkbits hkone hbits hnormal hleast
        have hstrict := units_repack_lt v.hasInfinity hcanonical hvalue hnonneg hlt
        omega
    · rintro ⟨hfinite, -⟩
      cases hfinite

/-- Scalars with the roots of a binary format obey the laws. -/
theorem normScalar : NormScalar α v.tiny where
  toRoundedScalar := v.roundedScalar v.hasInfinity
  isFinite_zero := by
    rw [v.isFinite_eq, v.value_zero]
    rfl
  le_add := v.le_add
  zero_le_square := v.zero_le_square
  zero_le_sqrt := v.zero_le_sqrt
  le_mul_sqrt_iff := v.le_mul_sqrt_iff
  abs_zero_le := by
    rw [v.le_iff_units, v.isNaN_eq, v.isNaN_eq, v.value_abs, v.value_zero,
      show UnpackedFloat.abs (.zero .positive) = .zero .positive from rfl, repack_zero]
    exact ⟨rfl, rfl, Int.le_refl 0⟩
  abs_le_sqrt := v.abs_le_sqrt

end RootView

/-! ## The two precisions -/

theorem value_abs_double (a : Float) :
    double.value (Scalar.abs a) = repack .binary64 (double.value a).abs := by
  rfl

theorem value_sqrt_double (a : Float) :
    double.value (Scalar.sqrt a) = repack .binary64 (sqrt .binary64 (double.value a)) := by
  rfl

/-- Double precision with its roots; squares are normal from the square root of the least
normal value on. -/
def doubleRoots : RootView Float .binary64 where
  toView := double
  wide := by decide
  hasInfinity := by decide
  value_one := rfl
  value_abs := value_abs_double
  value_sqrt := value_sqrt_double
  tiny := .ofBits 0x2000000000000000
  tinyExponent := -563
  value_tiny := rfl
  least := by decide

theorem value_abs_single (a : Float32) :
    single.value (Scalar.abs a) = repack .binary32 (single.value a).abs := by
  rfl

theorem value_sqrt_single (a : Float32) :
    single.value (Scalar.sqrt a) = repack .binary32 (sqrt .binary32 (single.value a)) := by
  rfl

/-- Single precision with its roots. -/
def singleRoots : RootView Float32 .binary32 where
  toView := single
  wide := by decide
  hasInfinity := by decide
  value_one := rfl
  value_abs := value_abs_single
  value_sqrt := value_sqrt_single
  tiny := .ofBits 0x20000000
  tinyExponent := -86
  value_tiny := rfl
  least := by decide

/-- Double-precision magnitudes obey the laws, with `2 ^ (-511)` for the least one. -/
instance normFloat : NormScalar Float (.ofBits 0x2000000000000000) := doubleRoots.normScalar

/-- Single-precision magnitudes obey the laws, with `2 ^ (-63)` for the least one. -/
instance normFloat32 : NormScalar Float32 (.ofBits 0x20000000) := singleRoots.normScalar

end Descent.Binary
