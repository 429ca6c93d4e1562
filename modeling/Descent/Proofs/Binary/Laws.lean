/-
# Laws of binary arithmetic

The scalars of both precisions obey the laws of comparison and of rounded arithmetic.

* `add_spec` : sums of finite values are rounded;
* `units_repack_add_le` : adding what is not positive increases nothing;
* `signOf?_mul` : the sign of a product;
* `View` : scalars that stand for the values of a binary format;
* `View.roundedScalar` : the laws for all of them;
* `double`, `single` : the two precisions.
-/
import Descent.Proofs.Arithmetic
import Descent.Proofs.Binary.Rounding

namespace Descent.Binary

open Float.Model (Format UnpackedFloat)
open Float.Model.UnpackedFloat

variable {S : Format}

/-! ## Sums -/

/-- A signed magnitude in larger units. -/
theorem apply_mul_two_pow (s : Sign) (m j : Nat) :
    s.apply (m : Int) * 2 ^ j = s.apply (m * 2 ^ j : Nat) := by
  cases s
  · show -(m : Int) * 2 ^ j = -(m * 2 ^ j : Nat)
    push_cast
    rw [Int.neg_mul]
  · show (m : Int) * 2 ^ j = (m * 2 ^ j : Nat)
    push_cast
    rfl

/-- The sum of two finite values is their sum in units, rounded. -/
theorem add_spec (s₁ s₂ : Sign) {m₁ m₂ : Nat} {e₁ e₂ : Int} (h₁ : 0 < m₁) (h₂ : 0 < m₂)
    (he₁ : S.minExponent ≤ e₁) (he₂ : S.minExponent ≤ e₂) :
    IsCanonical S (add S (.finite s₁ m₁ e₁ h₁) (.finite s₂ m₂ e₂ h₂)) ∧
      RoundsIntTo S.mantissaBitsWithoutImplicit
        (units S (.finite s₁ m₁ e₁ h₁) + units S (.finite s₂ m₂ e₂ h₂))
        (units S (add S (.finite s₁ m₁ e₁ h₁) (.finite s₂ m₂ e₂ h₂))) := by
  -- both summands are aligned at the smaller exponent, where their sum is exact
  have hmin : S.minExponent ≤ min e₁ e₂ := by omega
  have hfirst := decreaseExponent_units (m := m₁) he₁ hmin
  have hsecond := decreaseExponent_units (m := m₂) he₂ hmin
  have hexponent₁ : (decreaseExponent m₁ e₁ (min e₁ e₂)).2 = min e₁ e₂ := by
    show e₁ - ((e₁ - min e₁ e₂).toNat : Int) = _
    omega
  have hexponent₂ : (decreaseExponent m₂ e₂ (min e₁ e₂)).2 = min e₁ e₂ := by
    show e₂ - ((e₂ - min e₁ e₂).toNat : Int) = _
    omega
  rw [hexponent₁] at hfirst
  rw [hexponent₂] at hsecond
  have hsum : units S (.finite s₁ m₁ e₁ h₁) + units S (.finite s₂ m₂ e₂ h₂) =
      (s₁.apply ((decreaseExponent m₁ e₁ (min e₁ e₂)).1 : Int) +
        s₂.apply ((decreaseExponent m₂ e₂ (min e₁ e₂)).1 : Int)) * 2 ^ place S (min e₁ e₂) := by
    rw [Int.add_mul, apply_mul_two_pow, apply_mul_two_pow, hfirst, hsecond]
    rfl
  rw [hsum]
  exact normalize_spec _ hmin .positive

/-- Values are counted between the overflows. -/
theorem units_bounds {u : UnpackedFloat} (hu : IsValue S u) :
    -(overflow S : Int) ≤ units S u ∧ units S u ≤ overflow S := by
  have hover := overflow_pos S
  obtain ⟨hcanonical, hfits⟩ := hu
  cases hcanonical with
  | infinity s => cases s <;> simp only [units, Sign.apply] <;> omega
  | notANumber => simp only [units]; omega
  | zero s => simp only [units]; omega
  | finite s m e hpos hm he hnormal =>
    have hlt : ((m * 2 ^ place S e : Nat) : Int) < overflow S :=
      Int.ofNat_lt.mpr (units_lt_overflow hm he hfits)
    cases s <;> simp only [units, Sign.apply] <;> omega

/-- A canonical value that does not fit is counted from the overflow on. -/
theorem overflow_le {s : Sign} {m : Nat} {e : Int} {hpos : 0 < m} (hS : 1 < S.exponentBits)
    (hu : IsCanonical S (.finite s m e hpos)) (hfits : ¬ Fits S (.finite s m e hpos)) :
    overflow S ≤ m * 2 ^ place S e := by
  have hfits' : ¬ e < S.minExponent + exponentRange S := hfits
  have hrange : 0 < exponentRange S := by
    have hle : 2 ^ 2 ≤ 2 ^ S.exponentBits := Nat.pow_le_pow_right (by omega) hS
    unfold exponentRange
    omega
  have hplace : exponentRange S ≤ place S e := by
    unfold place
    omega
  cases hu with
  | finite _ _ _ _ hm he hnormal =>
    rw [overflow, Nat.pow_add]
    exact Nat.mul_le_mul (hnormal.resolve_left (by omega))
      (Nat.pow_le_pow_right (by omega) hplace)

/-- A result below a value is below it when it is packed. -/
theorem units_repack_le (hS : 1 < S.exponentBits) {u a : UnpackedFloat} (hu : IsCanonical S u)
    (ha : IsValue S a) (hle : units S u ≤ units S a) : units S (repack S u) ≤ units S a := by
  by_cases hfits : Fits S u
  · rw [repack_of_fits hu hfits]
    exact hle
  · cases u with
    | infinity s => exact absurd trivial hfits
    | notANumber => exact absurd trivial hfits
    | zero s => exact absurd trivial hfits
    | finite s m e hpos =>
      have hover := overflow_le hS hu hfits
      have hbounds := units_bounds ha
      rw [repack_of_not_fits hfits]
      cases s
      · exact hbounds.1
      · simp only [units, Sign.apply] at hle ⊢
        omega

/-- Finite values are representable in units. -/
theorem representable_units {s : Sign} {m : Nat} {e : Int} {hpos : 0 < m}
    (hm : m < 2 ^ S.mantissaBits) :
    Representable S.mantissaBitsWithoutImplicit (units S (.finite s m e hpos)).natAbs := by
  rw [mantissaBits_eq] at hm
  refine ⟨m, place S e, ?_, hm⟩
  cases s
  · show (-((m * 2 ^ place S e : Nat) : Int)).natAbs = _
    rw [Int.natAbs_neg, Int.natAbs_natCast]
  · show ((m * 2 ^ place S e : Nat) : Int).natAbs = _
    rw [Int.natAbs_natCast]

/-- A value that is not positive is counted up to zero. -/
theorem units_le_zero {u : UnpackedFloat} (h : signOf? u ≠ some .positive) : units S u ≤ 0 := by
  cases u with
  | infinity s =>
    cases s
    · simp only [units, Sign.apply]; omega
    · exact absurd rfl h
  | notANumber => exact Int.le_refl 0
  | zero s => exact Int.le_refl 0
  | finite s m e hpos =>
    cases s
    · simp only [units, Sign.apply]; omega
    · exact absurd rfl h

/-- Adding a finite value that is not positive to a finite value increases nothing. -/
theorem units_repack_add_finite_le (hS : 1 < S.exponentBits) {s t : Sign} {m m' : Nat}
    {e e' : Int} {h : 0 < m} {h' : 0 < m'} (ha : IsValue S (.finite s m e h))
    (hb : IsValue S (.finite t m' e' h')) (hzero : units S (.finite t m' e' h') ≤ 0) :
    units S (repack S (add S (.finite s m e h) (.finite t m' e' h'))) ≤
      units S (.finite s m e h) := by
  cases ha.canonical with
  | finite _ _ _ _ hm he hnormal =>
    cases hb.canonical with
    | finite _ _ _ _ hm' he' hnormal' =>
      -- the exact sum is not above the first value, and rounding does not cross a value
      obtain ⟨hcanonical, hrounds⟩ := add_spec s t h h' he he'
      refine units_repack_le hS hcanonical ha ?_
      exact hrounds.le_of_le (representable_units hm) (by omega)

/-- Adding a value that is not positive increases nothing. -/
theorem units_repack_add_le (hS : 1 < S.exponentBits) {a b : UnpackedFloat} (ha : IsValue S a)
    (hb : IsValue S b) (hnan : (add S a b).isNaN = false) (hpos : signOf? b ≠ some .positive) :
    a.isNaN = false ∧ units S (repack S (add S a b)) ≤ units S a := by
  have hzero := units_le_zero (S := S) hpos
  cases a with
  | notANumber => cases hnan
  | infinity s =>
    refine ⟨rfl, ?_⟩
    have hsum : add S (.infinity s) b = .infinity s := by
      cases b with
      | notANumber => cases hnan
      | infinity t => cases s <;> cases t <;> first | rfl | cases hnan
      | zero t => rfl
      | finite t m e h => rfl
    rw [hsum, repack_infinity]
  | zero s =>
    refine ⟨rfl, ?_⟩
    cases b with
    | notANumber => cases hnan
    | infinity t =>
      show units S (repack S (.infinity t)) ≤ 0
      rw [repack_infinity]
      exact hzero
    | zero t =>
      have hsum : ∃ r, add S (.zero s) (.zero t) = .zero r := by
        cases s <;> cases t <;> exact ⟨_, rfl⟩
      obtain ⟨r, hr⟩ := hsum
      rw [hr, repack_zero]
      exact Int.le_refl 0
    | finite t m e h =>
      show units S (repack S (.finite t m e h)) ≤ 0
      rw [repack_of_fits hb.canonical hb.fits]
      exact hzero
  | finite s m e h =>
    refine ⟨rfl, ?_⟩
    cases b with
    | notANumber => cases hnan
    | infinity t =>
      have ht : t = .negative := by
        cases t
        · rfl
        · exact absurd rfl hpos
      subst ht
      show units S (repack S (.infinity .negative)) ≤ _
      rw [repack_infinity]
      exact (units_bounds ha).1
    | zero t =>
      show units S (repack S (.finite s m e h)) ≤ _
      rw [repack_of_fits ha.canonical ha.fits]
    | finite t m' e' h' => exact units_repack_add_finite_le hS ha hb hzero

/-! ## Products -/

/-- A rounded value has its sign, and it is a number. -/
theorem roundWithAccuracy_cases (s : Sign) (m : Nat) (e : Int) (acc : Accuracy) :
    roundWithAccuracy S s m e acc = .zero s ∨
      ∃ m' e' hpos, roundWithAccuracy S s m e acc = .finite s m' e' hpos := by
  unfold roundWithAccuracy
  simp only
  split
  · exact .inl rfl
  · next hpos => exact .inr ⟨_, _, Nat.pos_of_ne_zero hpos, rfl⟩

/-- The sign of a product is the product of the signs. -/
theorem signOf?_mul {a b : UnpackedFloat} {r : Sign} (h : signOf? (mul S a b) = some r) :
    ∃ s t, signOf? a = some s ∧ signOf? b = some t ∧ r = s * t := by
  cases a with
  | notANumber => cases h
  | infinity s =>
    cases b with
    | notANumber => cases h
    | infinity t => cases h; exact ⟨s, t, rfl, rfl, rfl⟩
    | zero t => cases h
    | finite t m e hpos => cases h; exact ⟨s, t, rfl, rfl, rfl⟩
  | zero s => cases b <;> cases h
  | finite s m e hpos =>
    cases b with
    | notANumber => cases h
    | infinity t => cases h; exact ⟨s, t, rfl, rfl, rfl⟩
    | zero t => cases h
    | finite t m' e' hpos' =>
      have hmul : mul S (.finite s m e hpos) (.finite t m' e' hpos') =
        roundWithAccuracy S (s * t) (m * m') (e + e') .exact := rfl
      rw [hmul] at h
      rcases roundWithAccuracy_cases (S := S) (s * t) (m * m') (e + e') .exact with
        heq | ⟨m₁, e₁, hpos₁, heq⟩
      · rw [heq] at h
        cases h
      · rw [heq] at h
        cases h
        exact ⟨s, t, rfl, rfl, rfl⟩

/-- A rounded value is a number. -/
theorem isNaN_roundWithAccuracy (s : Sign) (m : Nat) (e : Int) (acc : Accuracy) :
    (roundWithAccuracy S s m e acc).isNaN = false := by
  rcases roundWithAccuracy_cases (S := S) s m e acc with heq | ⟨m', e', hpos, heq⟩
  · rw [heq]
    rfl
  · rw [heq]
    rfl

theorem isNaN_normalize (K e : Int) (t : Sign) :
    (UnpackedFloat.normalize S K e t).isNaN = false := by
  unfold UnpackedFloat.normalize
  split
  · exact isNaN_roundWithAccuracy ..
  · rfl
  · exact isNaN_roundWithAccuracy ..

/-- A product of finite values is a number. -/
theorem isNaN_mul {a b : UnpackedFloat} (ha : a.isFinite = true) (hb : b.isFinite = true) :
    (mul S a b).isNaN = false := by
  cases a with
  | notANumber => cases ha
  | infinity s => cases ha
  | zero s =>
    cases b with
    | notANumber => cases hb
    | infinity t => cases hb
    | zero t => rfl
    | finite t m' e' hpos' => rfl
  | finite s m e hpos =>
    cases b with
    | notANumber => cases hb
    | infinity t => cases hb
    | zero t => rfl
    | finite t m' e' hpos' =>
      exact isNaN_roundWithAccuracy (s * t) (m * m') (e + e') .exact

/-- A finite value and a number have a sum. -/
theorem isNaN_add {a b : UnpackedFloat} (ha : a.isFinite = true) (hb : b.isNaN = false) :
    (add S a b).isNaN = false := by
  cases a with
  | notANumber => cases ha
  | infinity s => cases ha
  | zero s =>
    cases b with
    | notANumber => cases hb
    | infinity t => rfl
    | zero t => cases s <;> cases t <;> rfl
    | finite t m' e' hpos' => rfl
  | finite s m e hpos =>
    cases b with
    | notANumber => cases hb
    | infinity t => rfl
    | zero t => rfl
    | finite t m' e' hpos' => exact isNaN_normalize ..

/-! ## Scalars of a binary format -/

/-- A scalar type whose scalars stand for values of a binary format, and whose
operations round to it. -/
structure View (α : Type) [Scalar α] (S : Format) where
  /-- The value that a scalar stands for. -/
  value : α → UnpackedFloat
  /-- It is a value of the format. -/
  isValue (a : α) : IsValue S (value a)
  /-- At most, compared by value. -/
  le_iff (a b : α) : a ≤ b ↔ (value a).le (value b) = true
  /-- Less, compared by value. -/
  lt_iff (a b : α) : a < b ↔ (value a).lt (value b) = true
  /-- Scalars that are not numbers. -/
  isNaN_eq (a : α) : Scalar.isNaN a = (value a).isNaN
  /-- Finite scalars. -/
  isFinite_eq (a : α) : Scalar.isFinite a = (value a).isFinite
  /-- The scalar zero. -/
  value_zero : value 0 = .zero .positive
  /-- Sums are rounded. -/
  value_add (a b : α) : value (a + b) = repack S (add S (value a) (value b))
  /-- Products are rounded. -/
  value_mul (a b : α) : value (a * b) = repack S (mul S (value a) (value b))

theorem isNaN_of_isFinite {u : UnpackedFloat} (h : u.isFinite = true) : u.isNaN = false := by
  cases u with
  | notANumber => cases h
  | infinity s => rfl
  | zero s => rfl
  | finite s m e hpos => rfl

namespace View

variable {α : Type} [Scalar α] (v : View α S)

include v

theorem le_iff_units (a b : α) :
    a ≤ b ↔ Scalar.isNaN a = false ∧ Scalar.isNaN b = false ∧
      units S (v.value a) ≤ units S (v.value b) := by
  rw [v.le_iff, Binary.le_iff (v.isValue a) (v.isValue b), v.isNaN_eq, v.isNaN_eq]

theorem lt_iff_units (a b : α) :
    a < b ↔ Scalar.isNaN a = false ∧ Scalar.isNaN b = false ∧
      units S (v.value a) < units S (v.value b) := by
  rw [v.lt_iff, Binary.lt_iff (v.isValue a) (v.isValue b), v.isNaN_eq, v.isNaN_eq]

theorem neg_iff (a : α) : a < 0 ↔ signOf? (v.value a) = some .negative := by
  rw [v.lt_iff, v.value_zero, lt_zero_iff]

theorem pos_iff (a : α) : 0 < a ↔ signOf? (v.value a) = some .positive := by
  rw [v.lt_iff, v.value_zero, zero_lt_iff]

/-- A product with a sign has factors with signs, and its sign is their product. -/
theorem signs_of_mul {a b : α} {r : Sign} (h : signOf? (v.value (a * b)) = some r) :
    ∃ s t, signOf? (v.value a) = some s ∧ signOf? (v.value b) = some t ∧ r = s * t := by
  rw [v.value_mul] at h
  exact signOf?_mul (signOf?_of_repack h)

/-- Scalars of a binary format are compared by the laws. -/
theorem orderedScalar : OrderedScalar α where
  le_trans := by
    intro a b c hab hbc
    rw [v.le_iff_units] at hab hbc ⊢
    obtain ⟨ha, -, hab⟩ := hab
    obtain ⟨-, hc, hbc⟩ := hbc
    exact ⟨ha, hc, Int.le_trans hab hbc⟩
  le_total := by
    intro a b ha hb
    rw [v.le_iff_units, v.le_iff_units]
    rcases Int.le_total (units S (v.value a)) (units S (v.value b)) with hle | hle
    · exact .inl ⟨ha, hb, hle⟩
    · exact .inr ⟨hb, ha, hle⟩
  lt_iff := by
    intro a b
    rw [v.lt_iff_units, v.le_iff_units, v.le_iff_units]
    constructor
    · rintro ⟨ha, hb, hlt⟩
      refine ⟨⟨ha, hb, Int.le_of_lt hlt⟩, ?_⟩
      rintro ⟨-, -, hle⟩
      omega
    · rintro ⟨⟨ha, hb, hle⟩, hnot⟩
      refine ⟨ha, hb, ?_⟩
      by_contra hge
      exact hnot ⟨hb, ha, by omega⟩
  isNaN_left := by
    intro a b h
    exact ((v.le_iff_units a b).mp h).1
  isNaN_right := by
    intro a b h
    exact ((v.le_iff_units a b).mp h).2.1
  isNaN_of_isFinite := by
    intro a h
    rw [v.isFinite_eq] at h
    rw [v.isNaN_eq]
    exact Binary.isNaN_of_isFinite h

/-- Scalars of a binary format are added and multiplied by the laws. -/
theorem roundedScalar (hS : 1 < S.exponentBits) : RoundedScalar α where
  toOrderedScalar := v.orderedScalar
  le_of_le_add := by
    intro a b w hle hb
    rw [v.le_iff_units] at hle ⊢
    obtain ⟨hw, hsum, hle⟩ := hle
    rw [v.isNaN_eq, v.value_add, isNaN_repack] at hsum
    rw [v.value_add] at hle
    rw [v.pos_iff] at hb
    obtain ⟨ha, hadd⟩ := units_repack_add_le hS (v.isValue a) (v.isValue b) hsum hb
    rw [← v.isNaN_eq] at ha
    exact ⟨hw, ha, Int.le_trans hle hadd⟩
  mul_not_neg := by
    intro a b ha hb hmul
    rw [v.neg_iff] at ha hb hmul
    obtain ⟨s, t, hs, ht, hst⟩ := v.signs_of_mul hmul
    -- one of the two factors would be negative
    cases s with
    | negative => exact ha hs
    | positive =>
      cases t with
      | negative => exact hb ht
      | positive => cases hst
  mul_not_pos := by
    intro a b ha hb hmul
    rw [v.neg_iff] at ha
    rw [v.pos_iff] at hb hmul
    obtain ⟨s, t, hs, ht, hst⟩ := v.signs_of_mul hmul
    cases s with
    | negative => exact ha hs
    | positive =>
      cases t with
      | negative => cases hst
      | positive => exact hb ht
  isNaN_add_mul := by
    intro a b c ha hb hc
    rw [v.isFinite_eq] at ha hb hc
    rw [v.isNaN_eq, v.value_add, isNaN_repack, v.value_mul]
    refine isNaN_add ha ?_
    rw [isNaN_repack]
    exact isNaN_mul hb hc

end View

/-! ## The two precisions -/

/-- Double precision. -/
def double : View Float .binary64 where
  value a := a.toModel.unpack
  isValue a := isValue_unpack (by decide) _
  le_iff _ _ := decide_eq_true_iff
  lt_iff _ _ := decide_eq_true_iff
  isNaN_eq _ := rfl
  isFinite_eq _ := rfl
  value_zero := rfl
  value_add _ _ := rfl
  value_mul _ _ := rfl

/-- Single precision. -/
def single : View Float32 .binary32 where
  value a := a.toModel.unpack
  isValue a := isValue_unpack (by decide) _
  le_iff _ _ := decide_eq_true_iff
  lt_iff _ _ := decide_eq_true_iff
  isNaN_eq _ := rfl
  isFinite_eq _ := rfl
  value_zero := rfl
  value_add _ _ := rfl
  value_mul _ _ := rfl

/-- Double-precision arithmetic obeys the laws. -/
instance roundedFloat : RoundedScalar Float := double.roundedScalar (by decide)

/-- Single-precision arithmetic obeys the laws. -/
instance roundedFloat32 : RoundedScalar Float32 := single.roundedScalar (by decide)

end Descent.Binary
