/-
# Rounding

Rounding in units of the least positive value.  A natural number is rounded to a
neighbouring multiple of a power of two, and no value of the format comes between the
two; so rounding never crosses a value.

* `RoundsTo` : what rounding does to a natural number;
* `RoundsTo.le_of_le`, `RoundsTo.ge_of_ge` : rounding does not cross a value;
* `roundWithAccuracy_spec`, `round_spec` : rounded values;
* `normalize_spec` : rounded integers.
-/
import Descent.Proofs.Binary.Packing

namespace Descent.Binary

open Float.Model (Format UnpackedFloat totalExponent)
open Float.Model.UnpackedFloat

variable {S : Format}

/-! ## Rounding a natural number -/

/-- The number is rounded to a multiple of a power of two, to the one below it or, if it
is no multiple itself, to the one above; and it has at least `w` bits more than the
power, unless that is one. -/
def RoundsTo (w N M : Nat) : Prop :=
  ∃ k q, M = q * 2 ^ k ∧ (q = N / 2 ^ k ∨ (q = N / 2 ^ k + 1 ∧ N % 2 ^ k ≠ 0)) ∧
    (k = 0 ∨ 2 ^ (w + k) ≤ N)

/-- Numbers of at most `w + 1` bits times a power of two. -/
def Representable (w A : Nat) : Prop :=
  ∃ a j, A = a * 2 ^ j ∧ a < 2 ^ (w + 1)

/-- A representable number lies on a grid or below `2 ^ w` of its steps. -/
theorem Representable.cases {w A : Nat} (hA : Representable w A) (k : Nat) :
    (∃ c, A = c * 2 ^ k) ∨ A < 2 ^ (w + k) := by
  obtain ⟨a, j, rfl, ha⟩ := hA
  rcases Nat.lt_or_ge j k with hj | hj
  · right
    calc a * 2 ^ j < 2 ^ (w + 1) * 2 ^ j := Nat.mul_lt_mul_of_pos_right ha (Nat.two_pow_pos _)
      _ = 2 ^ (w + 1 + j) := by rw [← Nat.pow_add]
      _ ≤ 2 ^ (w + k) := Nat.pow_le_pow_right (by omega) (by omega)
  · left
    refine ⟨a * 2 ^ (j - k), ?_⟩
    rw [Nat.mul_assoc, ← Nat.pow_add, Nat.sub_add_cancel hj]

/-- Rounding does not go above a representable number. -/
theorem RoundsTo.le_of_le {w N M A : Nat} (h : RoundsTo w N M) (hA : Representable w A)
    (hle : N ≤ A) : M ≤ A := by
  obtain ⟨k, q, rfl, hq, hk⟩ := h
  have hpos : 0 < 2 ^ k := Nat.two_pow_pos k
  -- the bound lies on the grid of the rounding, or below everything that is rounded on it
  rcases hA.cases k with ⟨c, rfl⟩ | hlt
  · rcases hq with rfl | ⟨rfl, hrest⟩
    · exact le_trans (Nat.div_mul_le_self N (2 ^ k)) hle
    · refine Nat.mul_le_mul_right _ ?_
      rw [Nat.succ_le_iff, Nat.div_lt_iff_lt_mul hpos]
      rcases Nat.lt_or_eq_of_le hle with hlt | heq
      · exact hlt
      · rw [heq, Nat.mul_mod_left] at hrest
        exact absurd rfl hrest
  · rcases hk with rfl | hbits
    · rcases hq with rfl | ⟨-, hrest⟩
      · simpa using hle
      · rw [Nat.pow_zero, Nat.mod_one] at hrest
        exact absurd rfl hrest
    · omega

/-- Rounding does not go below a representable number. -/
theorem RoundsTo.ge_of_ge {w N M A : Nat} (h : RoundsTo w N M) (hA : Representable w A)
    (hle : A ≤ N) : A ≤ M := by
  obtain ⟨k, q, rfl, hq, hk⟩ := h
  have hpos : 0 < 2 ^ k := Nat.two_pow_pos k
  have hfloor : N / 2 ^ k ≤ q := by
    rcases hq with rfl | ⟨rfl, -⟩ <;> omega
  rcases hA.cases k with ⟨c, rfl⟩ | hlt
  · refine Nat.mul_le_mul_right _ (le_trans ?_ hfloor)
    rw [Nat.le_div_iff_mul_le hpos]
    exact hle
  · rcases hk with rfl | hbits
    · simp only [Nat.pow_zero, Nat.div_one] at hfloor
      simpa using le_trans hle hfloor
    · have hw : 2 ^ w ≤ q := by
        refine le_trans ?_ hfloor
        rw [Nat.le_div_iff_mul_le hpos, ← Nat.pow_add]
        exact hbits
      calc A ≤ 2 ^ (w + k) := le_of_lt hlt
        _ = 2 ^ w * 2 ^ k := Nat.pow_add 2 w k
        _ ≤ q * 2 ^ k := Nat.mul_le_mul_right _ hw

/-! ## Shifting -/

/-- Shifting an exact mantissa to the right keeps its quotient and notes whether there
is a rest. -/
theorem shift_exact (m k : Nat) :
    (ExtendedMantissa.ofMantissaAndAccuracy m .exact >>> k).mantissa = m / 2 ^ k ∧
      (((ExtendedMantissa.ofMantissaAndAccuracy m .exact >>> k).roundBit = false ∧
        (ExtendedMantissa.ofMantissaAndAccuracy m .exact >>> k).stickyBit = false) ↔
          m % 2 ^ k = 0) := by
  induction k with
  | zero =>
    refine ⟨(Nat.div_one m).symm, ?_⟩
    rw [Nat.pow_zero, Nat.mod_one]
    exact ⟨fun _ => rfl, fun _ => ⟨rfl, rfl⟩⟩
  | succ k ih =>
    obtain ⟨hquotient, hrest⟩ := ih
    have hshift : ExtendedMantissa.ofMantissaAndAccuracy m .exact >>> (k + 1) =
        (ExtendedMantissa.ofMantissaAndAccuracy m .exact >>> k).shiftRightOne := rfl
    rw [hshift]
    constructor
    · show (ExtendedMantissa.ofMantissaAndAccuracy m .exact >>> k).mantissa / 2 = _
      rw [hquotient, Nat.div_div_eq_div_mul, ← Nat.pow_succ]
    · show ((ExtendedMantissa.ofMantissaAndAccuracy m .exact >>> k).mantissa % 2 != 0) = false ∧
        (_ || _) = false ↔ _
      rw [hquotient, bne_eq_false_iff_eq, Bool.or_eq_false_iff, hrest, Nat.mod_pow_succ]
      have hpos : 0 < 2 ^ k := Nat.two_pow_pos k
      constructor
      · rintro ⟨hbit, hlow⟩
        rw [hbit, hlow]
        simp
      · intro h
        have hlow : m % 2 ^ k = 0 := by omega
        rw [hlow, Nat.zero_add, Nat.mul_eq_zero] at h
        exact ⟨h.resolve_left (by omega), hlow⟩

/-- A rounded mantissa is the next one up if there is a rest, or it is not changed. -/
theorem roundedMantissa_cases (em : ExtendedMantissa) :
    em.roundedMantissa = em.mantissa ∨ (em.roundedMantissa = em.mantissa + 1 ∧
      ¬ (em.roundBit = false ∧ em.stickyBit = false)) := by
  obtain ⟨m, roundBit, stickyBit⟩ := em
  cases roundBit with
  | false =>
    left
    cases stickyBit <;> rfl
  | true =>
    cases stickyBit with
    | true => exact .inr ⟨rfl, by simp⟩
    | false =>
      -- a tie, which goes to the even neighbour
      rcases Nat.mod_two_eq_zero_or_one m with heven | hodd
      · left
        show m + m % 2 = m
        rw [heven, Nat.add_zero]
      · right
        refine ⟨?_, by simp⟩
        show m + m % 2 = m + 1
        rw [hodd]

/-- The mantissa after a shift to the right, rounded. -/
theorem rounded_shift (m k : Nat) :
    (ExtendedMantissa.ofMantissaAndAccuracy m .exact >>> k).roundedMantissa = m / 2 ^ k ∨
      ((ExtendedMantissa.ofMantissaAndAccuracy m .exact >>> k).roundedMantissa = m / 2 ^ k + 1 ∧
        m % 2 ^ k ≠ 0) := by
  obtain ⟨hquotient, hrest⟩ := shift_exact m k
  rcases roundedMantissa_cases (ExtendedMantissa.ofMantissaAndAccuracy m .exact >>> k) with
    h | ⟨h, hup⟩
  · left
    rw [h, hquotient]
  · right
    rw [h, hquotient]
    refine ⟨rfl, ?_⟩
    intro hzero
    exact hup (hrest.mpr hzero)

/-! ## Rounding a value -/

/-- The exponent at which a magnitude is rounded. -/
def grid (S : Format) (m : Nat) (e : Int) : Int :=
  S.targetExponent (totalExponent m e)

theorem minExponent_le_grid (S : Format) (m : Nat) (e : Int) : S.minExponent ≤ grid S m e := by
  unfold grid Format.targetExponent
  omega

/-- A rounded mantissa that fits stays on its grid. -/
theorem grid_le_of_lt {r : Nat} {e : Int} (he : S.minExponent ≤ e)
    (hlt : r < 2 ^ S.mantissaBits) : grid S r e ≤ e := by
  have hlog : r.log2 + 1 ≤ S.mantissaBits := by
    rcases Nat.eq_zero_or_pos r with rfl | hpos
    · rw [Nat.log2_zero, mantissaBits_eq]
      omega
    · exact (Nat.log2_lt (by omega)).mpr hlt
  unfold grid Format.targetExponent totalExponent
  omega

/-- A rounded mantissa that has grown by a bit moves to the next grid. -/
theorem grid_eq_of_overflow {e : Int} (he : S.minExponent ≤ e) :
    grid S (2 ^ S.mantissaBits) e = e + 1 := by
  unfold grid Format.targetExponent totalExponent
  rw [Nat.log2_two_pow]
  omega

/-- The mantissa of a magnitude on its grid. -/
def gridMantissa (S : Format) (m : Nat) (e : Int) : Nat :=
  (ExtendedMantissa.ofMantissaAndAccuracy m .exact >>> (grid S m e - e).toNat).roundedMantissa

/-- A rounded mantissa on its grid, or on the next one if it has grown by a bit. -/
def ofRounded (S : Format) (s : Sign) (r : Nat) (e : Int) : UnpackedFloat :=
  let (em, e') := shiftToTargetExponent S r e .exact
  if h : em.mantissa = 0 then .zero s else .finite s em.mantissa e' (Nat.pos_of_ne_zero h)

/-- A rounded mantissa that fits, or that has grown by a bit, is canonical on its grid. -/
theorem ofRounded_units (s : Sign) {r : Nat} {e : Int} (hle : r ≤ 2 ^ S.mantissaBits)
    (he : S.minExponent ≤ e)
    (hnormal : e = S.minExponent ∨ 2 ^ S.mantissaBitsWithoutImplicit ≤ r) :
    IsCanonical S (ofRounded S s r e) ∧
      units S (ofRounded S s r e) = s.apply (r * 2 ^ place S e : Nat) := by
  have hbits := mantissaBits_eq S
  have hshift (k : Nat) (hk : (grid S r e - e).toNat = k) :
      ofRounded S s r e =
        if h : r / 2 ^ k = 0 then .zero s
        else .finite s (r / 2 ^ k) (e + k) (Nat.pos_of_ne_zero h) := by
    have hmantissa := (shift_exact r k).1
    have htarget : shiftToTargetExponent S r e .exact =
        (ExtendedMantissa.ofMantissaAndAccuracy r .exact >>> k, e + k) := by
      rw [← hk]
      rfl
    unfold ofRounded
    simp only [htarget, hmantissa]
  rcases Nat.lt_or_eq_of_le hle with hlt | rfl
  · -- the rounded mantissa fits
    have hstay := grid_le_of_lt he hlt
    rw [hshift 0 (by omega)]
    simp only [Nat.pow_zero, Nat.div_one, Int.natCast_zero, Int.add_zero]
    split
    · next hzero =>
      refine ⟨.zero s, ?_⟩
      rw [hzero, Nat.zero_mul]
      cases s <;> rfl
    · next hzero => exact ⟨.finite s _ _ _ hlt he hnormal, rfl⟩
  · -- it has grown by a bit
    have hhalf : 2 ^ S.mantissaBits / 2 ^ 1 = 2 ^ S.mantissaBitsWithoutImplicit := by
      rw [hbits, Nat.pow_succ, Nat.pow_one, Nat.mul_div_cancel _ (by omega)]
    have hpos : 0 < 2 ^ S.mantissaBitsWithoutImplicit := Nat.two_pow_pos _
    have hnext : place S (e + (1 : Nat)) = place S e + 1 := by
      unfold place
      omega
    rw [hshift 1 (by rw [grid_eq_of_overflow he]; omega)]
    simp only [hhalf]
    rw [dif_neg (by omega)]
    constructor
    · refine .finite s _ _ _ ?_ (by omega) (.inr (Nat.le_refl _))
      rw [hbits, Nat.pow_succ]
      omega
    · show s.apply (2 ^ S.mantissaBitsWithoutImplicit * 2 ^ place S (e + (1 : Nat)) : Nat) = _
      rw [hnext, hbits, Nat.pow_succ, Nat.pow_succ, Nat.mul_assoc, Nat.mul_comm (2 ^ place S e) 2]

/-- A magnitude has at most as many bits above its grid as a mantissa. -/
theorem div_grid_lt {m : Nat} (e : Int) :
    m / 2 ^ (grid S m e - e).toNat < 2 ^ S.mantissaBits := by
  rw [Nat.div_lt_iff_lt_mul (Nat.two_pow_pos _), ← Nat.pow_add]
  calc m < 2 ^ (m.log2 + 1) := Nat.lt_log2_self
    _ ≤ 2 ^ (S.mantissaBits + (grid S m e - e).toNat) := by
      refine Nat.pow_le_pow_right (by omega) ?_
      unfold grid Format.targetExponent totalExponent
      omega

/-- Above the finest grid a magnitude has as many bits as a mantissa. -/
theorem le_of_grid_ne {m : Nat} (hm : 0 < m) {e : Int} (hgrid : e ≤ grid S m e)
    (hne : grid S m e ≠ S.minExponent) :
    2 ^ (S.mantissaBitsWithoutImplicit + (grid S m e - e).toNat) ≤ m := by
  have hlog : S.mantissaBitsWithoutImplicit + (grid S m e - e).toNat = m.log2 := by
    have hbits := mantissaBits_eq S
    unfold grid Format.targetExponent totalExponent at hgrid hne ⊢
    omega
  rw [hlog]
  exact Nat.log2_self_le (by omega)

/-- A mantissa on its grid is the quotient, or the next one up if there is a rest. -/
theorem gridMantissa_cases (S : Format) (m : Nat) (e : Int) :
    gridMantissa S m e = m / 2 ^ (grid S m e - e).toNat ∨
      (gridMantissa S m e = m / 2 ^ (grid S m e - e).toNat + 1 ∧
        m % 2 ^ (grid S m e - e).toNat ≠ 0) :=
  rounded_shift m (grid S m e - e).toNat

/-- A mantissa on its grid fits, or it has grown by one bit. -/
theorem gridMantissa_le (S : Format) (m : Nat) (e : Int) :
    gridMantissa S m e ≤ 2 ^ S.mantissaBits := by
  have hquotient := div_grid_lt (S := S) (m := m) e
  rcases gridMantissa_cases S m e with h | ⟨h, -⟩ <;> omega

/-- A mantissa on its grid has its implicit bit, unless the grid is the finest one. -/
theorem le_gridMantissa {m : Nat} (hm : 0 < m) {e : Int} (hgrid : e ≤ grid S m e) :
    grid S m e = S.minExponent ∨ 2 ^ S.mantissaBitsWithoutImplicit ≤ gridMantissa S m e := by
  by_cases hne : grid S m e = S.minExponent
  · exact .inl hne
  · right
    have hpow := le_of_grid_ne hm hgrid hne
    rw [Nat.pow_add, ← Nat.le_div_iff_mul_le (Nat.two_pow_pos _)] at hpow
    rcases gridMantissa_cases S m e with h | ⟨h, -⟩ <;> omega

/-- In units a magnitude is rounded to its mantissa on its grid. -/
theorem roundsTo_gridMantissa {m : Nat} (hm : 0 < m) {e : Int} (he : S.minExponent ≤ e)
    (hgrid : e ≤ grid S m e) :
    RoundsTo S.mantissaBitsWithoutImplicit (m * 2 ^ place S e)
      (gridMantissa S m e * 2 ^ place S (grid S m e)) := by
  have hpos := Nat.two_pow_pos (place S e)
  have hplace : place S (grid S m e) = (grid S m e - e).toNat + place S e := by
    unfold place
    omega
  refine ⟨place S (grid S m e), gridMantissa S m e, rfl, ?_, ?_⟩
  · -- the first shift is a division by a power of two
    rw [hplace, Nat.pow_add, Nat.mul_div_mul_right _ _ hpos, Nat.mul_mod_mul_right]
    rcases gridMantissa_cases S m e with h | ⟨h, hrest⟩
    · exact .inl h
    · exact .inr ⟨h, Nat.mul_ne_zero hrest (by omega)⟩
  · by_cases hne : grid S m e = S.minExponent
    · left
      rw [place, hne]
      omega
    · right
      rw [hplace, ← Nat.add_assoc, Nat.pow_add]
      exact Nat.mul_le_mul_right _ (le_of_grid_ne hm hgrid hne)

/-- A rounded value is canonical, and it is its mantissa on its grid. -/
theorem roundWithAccuracy_units (s : Sign) {m : Nat} (hm : 0 < m) {e : Int}
    (hgrid : e ≤ grid S m e) :
    IsCanonical S (roundWithAccuracy S s m e .exact) ∧
      units S (roundWithAccuracy S s m e .exact) =
        s.apply (gridMantissa S m e * 2 ^ place S (grid S m e) : Nat) := by
  have hround : roundWithAccuracy S s m e .exact =
      ofRounded S s (gridMantissa S m e) (e + ((grid S m e - e).toNat : Int)) := rfl
  have hexponent : e + ((grid S m e - e).toNat : Int) = grid S m e := by omega
  rw [hround, hexponent]
  exact ofRounded_units s (gridMantissa_le S m e) (minExponent_le_grid S m e)
    (le_gridMantissa hm hgrid)

/-- **Rounding a value.**  The result is canonical, and in units it is the rounded
magnitude with its sign. -/
theorem roundWithAccuracy_spec (s : Sign) {m : Nat} (hm : 0 < m) {e : Int}
    (he : S.minExponent ≤ e) (hgrid : e ≤ grid S m e) :
    IsCanonical S (roundWithAccuracy S s m e .exact) ∧
      ∃ M : Nat, units S (roundWithAccuracy S s m e .exact) = s.apply M ∧
        RoundsTo S.mantissaBitsWithoutImplicit (m * 2 ^ place S e) M := by
  obtain ⟨hcanonical, hunits⟩ := roundWithAccuracy_units s hm hgrid
  exact ⟨hcanonical, _, hunits, roundsTo_gridMantissa hm he hgrid⟩

/-- Shifting a number to the left adds bits. -/
theorem log2_mul_two_pow {m : Nat} (hm : 0 < m) (j : Nat) : (m * 2 ^ j).log2 = m.log2 + j := by
  have hpos : 0 < 2 ^ j := Nat.two_pow_pos j
  rw [Nat.log2_eq_iff (Nat.mul_ne_zero (by omega) (by omega))]
  constructor
  · rw [Nat.pow_add]
    exact Nat.mul_le_mul_right _ (Nat.log2_self_le (by omega))
  · rw [show m.log2 + j + 1 = m.log2 + 1 + j from by omega, Nat.pow_add]
    exact Nat.mul_lt_mul_of_pos_right Nat.lt_log2_self hpos

/-- Decreasing an exponent keeps the magnitude in units. -/
theorem decreaseExponent_units {m : Nat} {e target : Int} (he : S.minExponent ≤ e)
    (htarget : S.minExponent ≤ target) :
    (decreaseExponent m e target).1 * 2 ^ place S (decreaseExponent m e target).2 =
      m * 2 ^ place S e := by
  unfold decreaseExponent
  simp only [Nat.shiftLeft_eq]
  rw [Nat.mul_assoc, ← Nat.pow_add]
  congr 2
  unfold place
  omega

/-- **Rounding a value**, also where the exponent has to be decreased first. -/
theorem round_spec (s : Sign) {m : Nat} (hm : 0 < m) {e : Int} (he : S.minExponent ≤ e) :
    IsCanonical S (round S s m e) ∧
      ∃ M : Nat, units S (round S s m e) = s.apply M ∧
        RoundsTo S.mantissaBitsWithoutImplicit (m * 2 ^ place S e) M := by
  have hleast := minExponent_le_grid S m e
  have hmantissa : (decreaseExponent m e (grid S m e)).1 = m * 2 ^ (e - grid S m e).toNat :=
    Nat.shiftLeft_eq ..
  have hexponent : (decreaseExponent m e (grid S m e)).2 = e - (e - grid S m e).toNat := rfl
  -- the grid depends on the magnitude only, which does not change
  have hsame : grid S (decreaseExponent m e (grid S m e)).1
      (decreaseExponent m e (grid S m e)).2 = grid S m e := by
    rw [hmantissa, hexponent]
    unfold grid Format.targetExponent totalExponent
    rw [log2_mul_two_pow hm]
    omega
  have hround : round S s m e = roundWithAccuracy S s (decreaseExponent m e (grid S m e)).1
      (decreaseExponent m e (grid S m e)).2 .exact := rfl
  rw [← decreaseExponent_units he hleast, hround]
  refine roundWithAccuracy_spec s ?_ ?_ ?_
  · rw [hmantissa]
    exact Nat.mul_pos hm (Nat.two_pow_pos _)
  · rw [hexponent]
    omega
  · rw [hsame, hexponent]
    omega

/-! ## Rounding an integer -/

/-- An integer number of units is rounded by its magnitude. -/
def RoundsIntTo (w : Nat) (K R : Int) : Prop :=
  ∃ M : Nat, (0 ≤ K ∧ R = M ∧ RoundsTo w K.toNat M) ∨ (K ≤ 0 ∧ R = -M ∧ RoundsTo w (-K).toNat M)

/-- Rounding an integer does not go above a representable one. -/
theorem RoundsIntTo.le_of_le {w : Nat} {K R A : Int} (h : RoundsIntTo w K R)
    (hA : Representable w A.natAbs) (hle : K ≤ A) : R ≤ A := by
  obtain ⟨M, ⟨hK, rfl, hM⟩ | ⟨hK, rfl, hM⟩⟩ := h
  · have hbound := hM.le_of_le hA (by omega)
    omega
  · by_cases hneg : A < 0
    · have hbound := hM.ge_of_ge hA (by omega)
      omega
    · omega

/-- Rounding an integer does not go below a representable one that is not negative. -/
theorem RoundsIntTo.ge_of_ge {w : Nat} {K R : Int} {A : Nat} (h : RoundsIntTo w K R)
    (hA : Representable w A) (hle : (A : Int) ≤ K) : (A : Int) ≤ R := by
  obtain ⟨M, ⟨hK, rfl, hM⟩ | ⟨hK, rfl, hM⟩⟩ := h
  · have hbound := hM.ge_of_ge hA (by omega)
    omega
  · have hbound := hM.le_of_le hA (by omega)
    omega

theorem toNat_mul_two_pow (k j : Nat) : ((k : Int) * 2 ^ j).toNat = k * 2 ^ j := by
  have hcast : (k : Int) * 2 ^ j = (k * 2 ^ j : Nat) := by
    push_cast
    rfl
  rw [hcast, Int.toNat_natCast]

/-- A rounded integer number of units, with its exponent at least the least one. -/
theorem normalize_spec (K : Int) {e : Int} (he : S.minExponent ≤ e) (t : Sign) :
    IsCanonical S (UnpackedFloat.normalize S K e t) ∧
      RoundsIntTo S.mantissaBitsWithoutImplicit (K * 2 ^ place S e)
        (units S (UnpackedFloat.normalize S K e t)) := by
  have hpos : (0 : Int) < 2 ^ place S e := by exact_mod_cast Nat.two_pow_pos (place S e)
  unfold UnpackedFloat.normalize
  rcases lt_trichotomy K 0 with hK | hK | hK
  · rw [compare_lt_iff_lt.mpr hK]
    obtain ⟨hcanonical, M, hunits, hrounds⟩ :=
      round_spec (S := S) .negative (m := (-K).toNat) (by omega) he
    refine ⟨hcanonical, M, .inr ⟨?_, hunits, ?_⟩⟩
    · exact Int.le_of_lt (Int.mul_neg_of_neg_of_pos hK hpos)
    · have hmagnitude : (-(K * 2 ^ place S e)).toNat = (-K).toNat * 2 ^ place S e := by
        obtain ⟨k, rfl⟩ : ∃ k : Nat, K = -k := ⟨(-K).toNat, by omega⟩
        rw [Int.neg_mul, Int.neg_neg, Int.neg_neg, toNat_mul_two_pow, Int.toNat_natCast]
      rw [hmagnitude]
      exact hrounds
  · rw [compare_eq_iff_eq.mpr hK, hK]
    refine ⟨.zero t, 0, .inl ⟨by simp, rfl, ?_⟩⟩
    exact ⟨0, 0, by simp, .inl (by simp), .inl rfl⟩
  · rw [compare_gt_iff_gt.mpr hK]
    obtain ⟨hcanonical, M, hunits, hrounds⟩ :=
      round_spec (S := S) .positive (m := K.toNat) (by omega) he
    refine ⟨hcanonical, M, .inl ⟨?_, hunits, ?_⟩⟩
    · exact Int.le_of_lt (Int.mul_pos hK hpos)
    · have hmagnitude : (K * 2 ^ place S e).toNat = K.toNat * 2 ^ place S e := by
        obtain ⟨k, rfl⟩ : ∃ k : Nat, K = k := ⟨K.toNat, by omega⟩
        rw [toNat_mul_two_pow, Int.toNat_natCast]
      rw [hmagnitude]
      exact hrounds

end Descent.Binary
