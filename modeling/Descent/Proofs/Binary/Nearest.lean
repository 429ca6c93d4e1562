/-
# Nearest values

Rounding goes to a nearest multiple, so it crosses no midpoint.  A product with a factor
below one is therefore less than the other factor, unless that is subnormal; and a square
loses too little for its root to come out below what was squared.

* `rounded_shift_near` : rounding goes to a nearest multiple;
* `mul_units_lt` : a factor below one decreases a normal value;
* `square_near` : what a square loses.
-/
import Descent.Proofs.Binary.Laws

namespace Descent.Binary

open Float.Model (Format UnpackedFloat totalExponent)
open Float.Model.UnpackedFloat

variable {S : Format}

/-! ## Powers of two -/

/-- Multiples of powers of two are compared alike in other units. -/
theorem mul_two_pow_le_iff {x y a b a' b' : Nat} (h : a + b' = a' + b) :
    x * 2 ^ a ≤ y * 2 ^ b ↔ x * 2 ^ a' ≤ y * 2 ^ b' := by
  have hfirst : x * 2 ^ a ≤ y * 2 ^ b ↔ x * 2 ^ (a + b') ≤ y * 2 ^ (b + b') := by
    rw [Nat.pow_add, Nat.pow_add, ← Nat.mul_assoc, ← Nat.mul_assoc]
    exact (Nat.mul_le_mul_right_iff (Nat.two_pow_pos b')).symm
  have hsecond : x * 2 ^ a' ≤ y * 2 ^ b' ↔ x * 2 ^ (a' + b) ≤ y * 2 ^ (b' + b) := by
    rw [Nat.pow_add, Nat.pow_add, ← Nat.mul_assoc, ← Nat.mul_assoc]
    exact (Nat.mul_le_mul_right_iff (Nat.two_pow_pos b)).symm
  rw [hfirst, hsecond, h, Nat.add_comm b b']

/-- A multiple of a power of two that is not exceeded shows in the bits. -/
theorem add_le_log2 {m i a b : Nat} (hm : 0 < m) (h : 2 ^ i * 2 ^ b ≤ m * 2 ^ a) :
    i + b ≤ m.log2 + a := by
  have hpos : m * 2 ^ a ≠ 0 :=
    Nat.mul_ne_zero (by omega) (Nat.pos_iff_ne_zero.mp (Nat.two_pow_pos a))
  rw [← Nat.pow_add, ← Nat.le_log2 hpos, log2_mul_two_pow hm] at h
  exact h

/-! ## Nearest multiples -/

/-- One more shift of an exact mantissa drops a bit, which is kept, and notes whether
there is a rest behind it. -/
theorem shift_exact_succ (m k : Nat) :
    (ExtendedMantissa.ofMantissaAndAccuracy m .exact >>> (k + 1)).mantissa = m / 2 ^ k / 2 ∧
      (ExtendedMantissa.ofMantissaAndAccuracy m .exact >>> (k + 1)).roundBit =
        decide (m / 2 ^ k % 2 = 1) ∧
      (ExtendedMantissa.ofMantissaAndAccuracy m .exact >>> (k + 1)).stickyBit =
        decide (m % 2 ^ k ≠ 0) := by
  obtain ⟨hquotient, hrest⟩ := shift_exact m k
  have hshift : ExtendedMantissa.ofMantissaAndAccuracy m .exact >>> (k + 1) =
      (ExtendedMantissa.ofMantissaAndAccuracy m .exact >>> k).shiftRightOne := rfl
  rw [hshift]
  refine ⟨?_, ?_, ?_⟩
  · show (ExtendedMantissa.ofMantissaAndAccuracy m .exact >>> k).mantissa / 2 = _
    rw [hquotient]
  · show ((ExtendedMantissa.ofMantissaAndAccuracy m .exact >>> k).mantissa % 2 != 0) = _
    rw [hquotient]
    rcases Nat.mod_two_eq_zero_or_one (m / 2 ^ k) with hbit | hbit <;> rw [hbit] <;> rfl
  · show (_ || _) = _
    rw [Bool.eq_iff_iff, Bool.or_eq_true, decide_eq_true_eq]
    rw [← not_iff_not, not_or, Bool.not_eq_true, Bool.not_eq_true, not_not]
    exact hrest

/-- Rounding goes to a nearest multiple: the rounded mantissa is at most half a step away. -/
theorem rounded_shift_near (m k : Nat) :
    2 * m ≤ (2 * (ExtendedMantissa.ofMantissaAndAccuracy m .exact >>> k).roundedMantissa + 1) *
        2 ^ k ∧
      2 * (ExtendedMantissa.ofMantissaAndAccuracy m .exact >>> k).roundedMantissa * 2 ^ k ≤
        2 * m + 2 ^ k := by
  cases k with
  | zero =>
    show 2 * m ≤ (2 * m + 1) * 1 ∧ 2 * m * 1 ≤ 2 * m + 1
    omega
  | succ k =>
    obtain ⟨hquotient, hbit, hrest⟩ := shift_exact_succ m k
    generalize ExtendedMantissa.ofMantissaAndAccuracy m .exact >>> (k + 1) = em at *
    obtain ⟨q, roundBit, stickyBit⟩ := em
    dsimp only at hquotient hbit hrest
    subst hbit hrest
    -- the magnitude in halves of the step, and what is left of it
    obtain ⟨b, hb⟩ : ∃ b, b = m / 2 ^ k % 2 := ⟨_, rfl⟩
    obtain ⟨rest, hr⟩ : ∃ rest, rest = m % 2 ^ k := ⟨_, rfl⟩
    have hmagnitude : m = 2 * (q * 2 ^ k) + b * 2 ^ k + rest := by
      rw [hb, hr, hquotient, ← Nat.mul_assoc, ← Nat.add_mul, Nat.mul_comm 2, Nat.div_add_mod',
        Nat.div_add_mod']
    have hlow : rest < 2 ^ k := by
      rw [hr]
      exact Nat.mod_lt m (Nat.two_pow_pos k)
    rw [← hb, ← hr, Nat.pow_succ]
    have hbit : b = 0 ∨ b = 1 := by omega
    have hexpand (r : Nat) : (2 * r + 1) * (2 ^ k * 2) = 4 * (r * 2 ^ k) + 2 * 2 ^ k ∧
        2 * r * (2 ^ k * 2) = 4 * (r * 2 ^ k) := by
      constructor <;> ring
    rw [(hexpand _).1, (hexpand _).2]
    have hdown (sticky : Bool) : (ExtendedMantissa.mk q false sticky).roundedMantissa = q := by
      cases sticky <;> rfl
    have htie : (ExtendedMantissa.mk q true false).roundedMantissa = q + q % 2 := rfl
    have hup : (ExtendedMantissa.mk q true true).roundedMantissa = q + 1 := rfl
    rcases hbit with rfl | rfl
    · rw [decide_eq_false (by decide), hdown]
      omega
    · rw [decide_eq_true rfl]
      by_cases hzero : rest = 0
      · rw [decide_eq_false (not_not.mpr hzero), htie, Nat.add_mul]
        rcases Nat.mod_two_eq_zero_or_one q with heven | hodd
        · rw [heven]
          omega
        · rw [hodd]
          omega
      · rw [decide_eq_true hzero, hup, Nat.add_mul]
        omega

/-- A magnitude below the midpoint before a multiple is rounded below the multiple. -/
theorem gridMantissa_lt_of_lt {m c : Nat} {e : Int}
    (h : 2 * m + 2 ^ (grid S m e - e).toNat < 2 * c * 2 ^ (grid S m e - e).toNat) :
    gridMantissa S m e < c := by
  have hnear := (rounded_shift_near m (grid S m e - e).toNat).2
  have hcompare := Nat.lt_of_mul_lt_mul_right (lt_of_le_of_lt hnear h)
  unfold gridMantissa
  omega

/-! ## Products -/

/-- What is less than one is at most its predecessor: with `d` places behind the point. -/
theorem mul_two_pow_add_le {p m d : Nat} (hm : m < 2 ^ p) (hone : m < 2 ^ d) :
    m * 2 ^ p + 2 ^ d ≤ 2 ^ p * 2 ^ d := by
  rcases Nat.le_total d p with hd | hd
  · have hpow : 2 ^ d ≤ 2 ^ p := Nat.pow_le_pow_right (by omega) hd
    calc m * 2 ^ p + 2 ^ d ≤ m * 2 ^ p + 2 ^ p := by omega
      _ = (m + 1) * 2 ^ p := (Nat.succ_mul m _).symm
      _ ≤ 2 ^ d * 2 ^ p := Nat.mul_le_mul_right _ hone
      _ = 2 ^ p * 2 ^ d := Nat.mul_comm _ _
  · have hpow : 2 ^ p ≤ 2 ^ d := Nat.pow_le_pow_right (by omega) hd
    calc m * 2 ^ p + 2 ^ d ≤ m * 2 ^ d + 2 ^ d :=
          Nat.add_le_add_right (Nat.mul_le_mul_left m hpow) _
      _ = (m + 1) * 2 ^ d := (Nat.succ_mul m _).symm
      _ ≤ 2 ^ p * 2 ^ d := Nat.mul_le_mul_right _ hm

section Product

variable {t m d : Nat} {e : Int} (ht : 0 < t) (htbits : t < 2 ^ S.mantissaBits)
  (hone : t < 2 ^ d) (hbits : m < 2 ^ S.mantissaBits)
  (hnormal : 2 ^ S.mantissaBitsWithoutImplicit ≤ m)

include htbits hone in
/-- The product stays below the normal value by what the closest factor leaves. -/
theorem mul_add_le :
    t * m * 2 ^ S.mantissaBits + m * 2 ^ d ≤ 2 ^ S.mantissaBits * 2 ^ d * m := by
  have hpred := Nat.mul_le_mul_right m (mul_two_pow_add_le htbits hone)
  calc t * m * 2 ^ S.mantissaBits + m * 2 ^ d = (t * 2 ^ S.mantissaBits + 2 ^ d) * m := by ring
    _ ≤ 2 ^ S.mantissaBits * 2 ^ d * m := hpred

include ht hnormal in
/-- The grid of the product is not finer than the product. -/
theorem le_grid_mul : e - d ≤ grid S (t * m) (e - d) := by
  have hp := mantissaBits_eq S
  have hpow := Nat.two_pow_pos S.mantissaBitsWithoutImplicit
  have hlow : S.mantissaBitsWithoutImplicit ≤ (t * m).log2 := by
    rw [Nat.le_log2 (Nat.mul_ne_zero (by omega) (by omega))]
    calc 2 ^ S.mantissaBitsWithoutImplicit ≤ m := hnormal
      _ ≤ t * m := Nat.le_mul_of_pos_left m ht
  unfold grid Format.targetExponent totalExponent
  omega

include htbits hone in
/-- On the grid of the normal value the product is rounded below it, if the value has a
predecessor there. -/
theorem gridMantissa_mul_lt (hlt : 2 ^ S.mantissaBitsWithoutImplicit < m)
    (hgrid : grid S (t * m) (e - d) = e) : gridMantissa S (t * m) (e - d) < m := by
  have hgap := mul_add_le (m := m) htbits hone
  have hk : (grid S (t * m) (e - d) - (e - d)).toNat = d := by omega
  have hhalf : 2 ^ S.mantissaBitsWithoutImplicit * 2 ^ d < m * 2 ^ d :=
    Nat.mul_lt_mul_of_pos_right hlt (Nat.two_pow_pos d)
  have hpow : 2 ^ S.mantissaBits = 2 * 2 ^ S.mantissaBitsWithoutImplicit := by
    rw [mantissaBits_eq, Nat.pow_succ, Nat.mul_comm]
  refine gridMantissa_lt_of_lt ?_
  rw [hk]
  refine Nat.lt_of_mul_lt_mul_right (a := 2 ^ S.mantissaBits) ?_
  calc (2 * (t * m) + 2 ^ d) * 2 ^ S.mantissaBits
      = 2 * (t * m * 2 ^ S.mantissaBits) +
          2 * (2 ^ S.mantissaBitsWithoutImplicit * 2 ^ d) := by rw [hpow]; ring
    _ < 2 * (t * m * 2 ^ S.mantissaBits) + 2 * (m * 2 ^ d) := by omega
    _ ≤ 2 * (2 ^ S.mantissaBits * 2 ^ d * m) := by omega
    _ = 2 * m * 2 ^ d * 2 ^ S.mantissaBits := by ring

include htbits hone in
/-- Just below a power of two the product is rounded below it as well, on a grid that is
finer by one bit. -/
theorem gridMantissa_mul_two_pow_lt (heq : m = 2 ^ S.mantissaBitsWithoutImplicit)
    (hgrid : grid S (t * m) (e - d) = e - 1) (hd : 0 < d) :
    gridMantissa S (t * m) (e - d) < 2 ^ S.mantissaBits := by
  have hgap := mul_add_le (m := m) htbits hone
  have hpos : 0 < 2 ^ (d - 1) := Nat.two_pow_pos _
  have hk : (grid S (t * m) (e - d) - (e - d)).toNat = d - 1 := by omega
  have hpow : 2 ^ S.mantissaBits = 2 * m := by
    rw [heq, mantissaBits_eq, Nat.pow_succ, Nat.mul_comm]
  have hdouble : 2 ^ d = 2 * 2 ^ (d - 1) := by
    rw [← Nat.pow_succ']
    congr 1
    omega
  have hm : 0 < m := by
    rw [heq]
    exact Nat.two_pow_pos _
  refine gridMantissa_lt_of_lt ?_
  rw [hk]
  -- the power of two is a common factor
  have hcancel : 2 * (t * m) + 2 ^ d ≤ 2 ^ S.mantissaBits * 2 ^ d := by
    refine Nat.le_of_mul_le_mul_right (c := m) ?_ hm
    calc (2 * (t * m) + 2 ^ d) * m = t * m * 2 ^ S.mantissaBits + m * 2 ^ d := by rw [hpow]; ring
      _ ≤ 2 ^ S.mantissaBits * 2 ^ d * m := hgap
  calc 2 * (t * m) + 2 ^ (d - 1) < 2 * (t * m) + 2 ^ d := by omega
    _ ≤ 2 ^ S.mantissaBits * 2 ^ d := hcancel
    _ = 2 * 2 ^ S.mantissaBits * 2 ^ (d - 1) := by rw [hdouble]; ring

theorem two_pow_mantissaBits_mul (k : Nat) :
    2 ^ S.mantissaBits * 2 ^ k = 2 ^ S.mantissaBitsWithoutImplicit * 2 ^ (k + 1) := by
  rw [mantissaBits_eq, Nat.pow_succ, Nat.pow_succ]
  ring

include ht htbits hone hbits in
/-- The rounded product is below a normal value that is no power of two. -/
theorem rounded_mul_lt_of_lt (hlt : 2 ^ S.mantissaBitsWithoutImplicit < m)
    (he : S.minExponent < e) :
    gridMantissa S (t * m) (e - d) * 2 ^ place S (grid S (t * m) (e - d)) <
      m * 2 ^ place S e := by
  have hp := mantissaBits_eq S
  have hw := Nat.two_pow_pos S.mantissaBitsWithoutImplicit
  have hpos : t * m ≠ 0 := Nat.mul_ne_zero (by omega) (by omega)
  have hleast := minExponent_le_grid S (t * m) (e - d)
  have hhigh : (t * m).log2 < d + S.mantissaBits := by
    rw [Nat.log2_lt hpos, Nat.pow_add]
    exact Nat.mul_lt_mul'' hone hbits
  have hcoarse : grid S (t * m) (e - d) ≤ e := by
    unfold grid Format.targetExponent totalExponent
    omega
  rcases Int.lt_or_eq_of_le hcoarse with hfine | hsame
  · have hplace : place S (grid S (t * m) (e - d)) + 1 ≤ place S e := by
      unfold place
      omega
    calc gridMantissa S (t * m) (e - d) * 2 ^ place S (grid S (t * m) (e - d))
        ≤ 2 ^ S.mantissaBits * 2 ^ place S (grid S (t * m) (e - d)) :=
          Nat.mul_le_mul_right _ (gridMantissa_le S (t * m) (e - d))
      _ = 2 ^ S.mantissaBitsWithoutImplicit * 2 ^ (place S (grid S (t * m) (e - d)) + 1) :=
          two_pow_mantissaBits_mul _
      _ < m * 2 ^ (place S (grid S (t * m) (e - d)) + 1) :=
          Nat.mul_lt_mul_of_pos_right hlt (Nat.two_pow_pos _)
      _ ≤ m * 2 ^ place S e := Nat.mul_le_mul_left _ (Nat.pow_le_pow_right (by omega) hplace)
  · have hbelow := gridMantissa_mul_lt htbits hone hlt hsame
    rw [hsame]
    exact Nat.mul_lt_mul_of_pos_right hbelow (Nat.two_pow_pos _)

include ht htbits hone in
/-- The rounded product is below a power of two, whose predecessor is on a finer grid. -/
theorem rounded_mul_lt_of_eq (heq : m = 2 ^ S.mantissaBitsWithoutImplicit)
    (he : S.minExponent < e) :
    gridMantissa S (t * m) (e - d) * 2 ^ place S (grid S (t * m) (e - d)) <
      m * 2 ^ place S e := by
  have hp := mantissaBits_eq S
  have hm : 0 < m := by
    rw [heq]
    exact Nat.two_pow_pos _
  have hpos : t * m ≠ 0 := Nat.mul_ne_zero (by omega) (by omega)
  have hleast := minExponent_le_grid S (t * m) (e - d)
  have hhigh : (t * m).log2 < d + S.mantissaBitsWithoutImplicit := by
    rw [Nat.log2_lt hpos, Nat.pow_add, ← heq]
    exact Nat.mul_lt_mul_of_pos_right hone hm
  have hfine : grid S (t * m) (e - d) ≤ e - 1 := by
    unfold grid Format.targetExponent totalExponent
    omega
  have hd : 0 < d := by
    rcases Nat.eq_zero_or_pos d with rfl | hd
    · rw [Nat.pow_zero] at hone
      omega
    · exact hd
  rcases Int.lt_or_eq_of_le hfine with hfiner | hsame
  · have hplace : place S (grid S (t * m) (e - d)) + 1 < place S e := by
      unfold place
      omega
    calc gridMantissa S (t * m) (e - d) * 2 ^ place S (grid S (t * m) (e - d))
        ≤ 2 ^ S.mantissaBits * 2 ^ place S (grid S (t * m) (e - d)) :=
          Nat.mul_le_mul_right _ (gridMantissa_le S (t * m) (e - d))
      _ = m * 2 ^ (place S (grid S (t * m) (e - d)) + 1) := by rw [two_pow_mantissaBits_mul, heq]
      _ < m * 2 ^ place S e :=
          Nat.mul_lt_mul_of_pos_left (Nat.pow_lt_pow_right (by omega) hplace) hm
  · have hlt := gridMantissa_mul_two_pow_lt htbits hone heq hsame hd
    have hplace : place S (grid S (t * m) (e - d)) + 1 = place S e := by
      unfold place
      omega
    calc gridMantissa S (t * m) (e - d) * 2 ^ place S (grid S (t * m) (e - d))
        < 2 ^ S.mantissaBits * 2 ^ place S (grid S (t * m) (e - d)) :=
          Nat.mul_lt_mul_of_pos_right hlt (Nat.two_pow_pos _)
      _ = m * 2 ^ place S e := by rw [two_pow_mantissaBits_mul, hplace, heq]

include ht htbits hone hbits hnormal in
/-- The rounded product in units is below the normal value. -/
theorem rounded_mul_lt (he : S.minExponent < e) :
    gridMantissa S (t * m) (e - d) * 2 ^ place S (grid S (t * m) (e - d)) <
      m * 2 ^ place S e := by
  rcases Nat.lt_or_eq_of_le hnormal with hlt | heq
  · exact rounded_mul_lt_of_lt ht htbits hone hbits hlt he
  · exact rounded_mul_lt_of_eq ht htbits hone heq.symm he

end Product

/-- **Factors below one.**  The product of a positive value below one with a normal value
above the least exponent is rounded to less than the normal value. -/
theorem mul_units_lt {t m d : Nat} {e : Int} (ht : 0 < t) (hm : 0 < m)
    (htbits : t < 2 ^ S.mantissaBits) (hone : t < 2 ^ d) (hbits : m < 2 ^ S.mantissaBits)
    (hnormal : 2 ^ S.mantissaBitsWithoutImplicit ≤ m) (he : S.minExponent < e) :
    IsCanonical S (mul S (.finite .positive t (-d) ht) (.finite .positive m e hm)) ∧
      0 ≤ units S (mul S (.finite .positive t (-d) ht) (.finite .positive m e hm)) ∧
      units S (mul S (.finite .positive t (-d) ht) (.finite .positive m e hm)) <
        units S (.finite .positive m e hm) := by
  have hgrid : e - d ≤ grid S (t * m) (e - d) := le_grid_mul ht hnormal
  have hround : mul S (.finite .positive t (-d) ht) (.finite .positive m e hm) =
      roundWithAccuracy S .positive (t * m) (e - d) .exact := by
    show roundWithAccuracy S .positive (t * m) (-d + e) .exact = _
    rw [show -(d : Int) + e = e - d from by omega]
  obtain ⟨hcanonical, hunits⟩ :=
    roundWithAccuracy_units (S := S) .positive (Nat.mul_pos ht hm) hgrid
  rw [hround, hunits]
  exact ⟨hcanonical, Int.natCast_nonneg _,
    Int.ofNat_lt.mpr (rounded_mul_lt ht htbits hone hbits hnormal he)⟩

/-! ## Squares -/

section Square

variable {m : Nat} {e : Int} (hbits : m < 2 ^ S.mantissaBits)
  (hnormal : 2 ^ S.mantissaBitsWithoutImplicit ≤ m)
  (he : S.minExponent ≤ 2 * e + S.mantissaBitsWithoutImplicit)

include hnormal hbits in
/-- The number of bits of a square. -/
theorem log2_mul_self :
    2 * S.mantissaBitsWithoutImplicit ≤ (m * m).log2 ∧
      (m * m).log2 ≤ 2 * S.mantissaBitsWithoutImplicit + 1 := by
  have hp := mantissaBits_eq S
  have hw := Nat.two_pow_pos S.mantissaBitsWithoutImplicit
  have hpos : m * m ≠ 0 := Nat.mul_ne_zero (by omega) (by omega)
  constructor
  · rw [Nat.le_log2 hpos, Nat.two_mul, Nat.pow_add]
    exact Nat.mul_le_mul hnormal hnormal
  · rw [← Nat.lt_succ_iff, Nat.log2_lt hpos,
      show (2 * S.mantissaBitsWithoutImplicit + 1).succ = S.mantissaBits + S.mantissaBits from by
        omega,
      Nat.pow_add]
    exact Nat.mul_lt_mul'' hbits hbits

include hnormal hbits he in
/-- A square that is large enough is rounded to as many bits as a mantissa has. -/
theorem grid_mul_self :
    grid S (m * m) (2 * e) - 2 * e = (m * m).log2 - S.mantissaBitsWithoutImplicit := by
  have hp := mantissaBits_eq S
  obtain ⟨hlow, hhigh⟩ := log2_mul_self hbits hnormal
  unfold grid Format.targetExponent totalExponent
  omega

include hnormal hbits he in
/-- A rounded square has its implicit bit. -/
theorem le_gridMantissa_mul_self :
    2 ^ S.mantissaBitsWithoutImplicit ≤ gridMantissa S (m * m) (2 * e) := by
  have hw := Nat.two_pow_pos S.mantissaBitsWithoutImplicit
  have hpos : m * m ≠ 0 := Nat.mul_ne_zero (by omega) (by omega)
  obtain ⟨hlow, -⟩ := log2_mul_self hbits hnormal
  have hgrid := grid_mul_self hbits hnormal he
  have hfloor : 2 ^ S.mantissaBitsWithoutImplicit ≤
      m * m / 2 ^ (grid S (m * m) (2 * e) - 2 * e).toNat := by
    rw [Nat.le_div_iff_mul_le (Nat.two_pow_pos _), ← Nat.pow_add, ← Nat.le_log2 hpos]
    omega
  rcases gridMantissa_cases S (m * m) (2 * e) with h | ⟨h, -⟩ <;> omega

include hnormal hbits he in
/-- **Squares.**  What a square loses by rounding is less than what separates it from the
square of the midpoint below. -/
theorem square_near :
    4 * (m * m) + 1 < 4 * (gridMantissa S (m * m) (2 * e) *
      2 ^ (grid S (m * m) (2 * e) - 2 * e).toNat) + 4 * m := by
  have hw := Nat.two_pow_pos S.mantissaBitsWithoutImplicit
  obtain ⟨hlow, hhigh⟩ := log2_mul_self hbits hnormal
  have hgrid := grid_mul_self hbits hnormal he
  rcases Nat.lt_or_eq_of_le hnormal with hlt | heq
  · have hnear : 2 * (m * m) ≤ (2 * gridMantissa S (m * m) (2 * e) + 1) *
        2 ^ (grid S (m * m) (2 * e) - 2 * e).toNat :=
      (rounded_shift_near (m * m) (grid S (m * m) (2 * e) - 2 * e).toNat).1
    have hstep : 2 ^ (grid S (m * m) (2 * e) - 2 * e).toNat ≤
        2 * 2 ^ S.mantissaBitsWithoutImplicit := by
      rw [← Nat.pow_succ']
      exact Nat.pow_le_pow_right (by omega) (by omega)
    rw [Nat.add_mul, Nat.one_mul, Nat.mul_assoc] at hnear
    omega
  · -- the square of a power of two is not rounded
    have hle := le_gridMantissa_mul_self hbits hnormal he
    have hsame : (grid S (m * m) (2 * e) - 2 * e).toNat = S.mantissaBitsWithoutImplicit := by
      have hlog : (m * m).log2 = 2 * S.mantissaBitsWithoutImplicit := by
        rw [← heq, ← Nat.pow_add, Nat.log2_two_pow]
        omega
      omega
    have hexact : m * m ≤ gridMantissa S (m * m) (2 * e) *
        2 ^ (grid S (m * m) (2 * e) - 2 * e).toNat := by
      rw [hsame]
      calc m * m = 2 ^ S.mantissaBitsWithoutImplicit * 2 ^ S.mantissaBitsWithoutImplicit := by
            rw [heq]
        _ ≤ _ := Nat.mul_le_mul_right _ hle
    omega

end Square

end Descent.Binary
