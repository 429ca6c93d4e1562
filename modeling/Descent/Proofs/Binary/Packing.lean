/-
# Packing

Every bit pattern unpacks to a value of its format, and a canonical value that is
packed and unpacked again comes back, or as an infinite value if it does not fit.

* `isValue_unpack` : unpacked patterns are values;
* `repack` : what packing makes of a result;
* `repack_of_fits`, `repack_of_not_fits` : a finite result comes back if it fits.
-/
import Descent.Proofs.Binary.Value

namespace Descent.Binary

open Float.Model (Format UnpackedFloat)
open Float.Model.UnpackedFloat

variable {S : Format}

/-! ## Unpacking -/

/-- The least exponent in terms of the bias. -/
theorem minExponent_eq (S : Format) :
    S.minExponent = 1 - ((S.exponentBias : Int) + S.mantissaBitsWithoutImplicit) := by
  have hpos : 0 < 2 ^ (S.exponentBits - 1) := Nat.two_pow_pos _
  have hcast : ((2 ^ (S.exponentBits - 1) : Nat) : Int) = 2 ^ (S.exponentBits - 1) := by
    push_cast
    rfl
  unfold Format.minExponent Format.exponentBias Format.mantissaBits
  rw [← hcast]
  omega

theorem toNat_implicit {w : Nat} (m : BitVec w) : (1#1 ++ m).toNat = 2 ^ w + m.toNat := by
  rw [BitVec.toNat_append, ← Nat.shiftLeft_add_eq_or_of_lt m.isLt, Nat.shiftLeft_eq]
  simp

/-- The exponent field of a finite value is not full. -/
theorem toNat_lt_of_ne_neg_one {w : Nat} {e : BitVec w} (h : e ≠ -1#w) : e.toNat + 1 < 2 ^ w := by
  have hlt := e.isLt
  have hne : e.toNat ≠ 2 ^ w - 1 := by
    intro heq
    apply h
    rw [BitVec.neg_one_eq_allOnes, ← BitVec.toNat_inj, BitVec.toNat_allOnes, heq]
  omega

/-- Every bit pattern unpacks to a value. -/
theorem isValue_unpack (hS : 1 < S.exponentBits) (b : BitVec S.numBits) :
    IsValue S (unpack S b) := by
  have hmin := minExponent_eq S
  have hrange : 2 ≤ exponentRange S := by
    have hle : 2 ^ 2 ≤ 2 ^ S.exponentBits := Nat.pow_le_pow_right (by omega) hS
    unfold exponentRange
    omega
  unfold unpack
  simp only
  split
  · split
    · exact ⟨.infinity _, trivial⟩
    · exact ⟨.notANumber, trivial⟩
  · next hfull =>
    have hlt := toNat_lt_of_ne_neg_one hfull
    split
    · next hzero =>
      rw [hzero]
      split
      · exact ⟨.zero _, trivial⟩
      · -- below the least normal value
        have hm := (unpackMantissa b).isLt
        have he : ((0#S.exponentBits).toNat : Int) -
            (S.exponentBias + S.mantissaBitsWithoutImplicit) + 1 = S.minExponent := by
          rw [BitVec.toNat_zero]
          omega
        refine ⟨.finite _ _ _ _ ?_ (le_of_eq he.symm) (.inl he), ?_⟩
        · rw [mantissaBits_eq, Nat.pow_succ]
          omega
        · show _ < _
          omega
    · next hzero =>
      have hm := (unpackMantissa b).isLt
      have hpos : (unpackExponent b).toNat ≠ 0 := by
        intro heq
        apply hzero
        rw [← BitVec.toNat_inj, heq, BitVec.toNat_zero]
      refine ⟨.finite _ _ _ _ ?_ ?_ (.inr ?_), ?_⟩
      · rw [toNat_implicit, mantissaBits_eq, Nat.pow_succ]
        omega
      · omega
      · rw [toNat_implicit]
        omega
      · show _ < _
        unfold exponentRange
        omega

/-! ## Packing -/

/-- What remains of a result when it is packed and unpacked again. -/
def repack (S : Format) (u : UnpackedFloat) : UnpackedFloat :=
  unpack S (pack S u)

/-- Unpacking packed components, field by field. -/
theorem unpack_packComponents (s : Sign) (e : BitVec S.exponentBits)
    (m : BitVec S.mantissaBitsWithoutImplicit) :
    unpack S (packComponents S s e m) =
      if e = -1#_ then
        if m = 0#_ then .infinity s else .notANumber
      else if e = 0#_ then
        if h : m = 0#_ then .zero s
        else
          .finite s m.toNat
            (e.toNat - ((S.exponentBias : Int) + S.mantissaBitsWithoutImplicit) + 1)
            (by simpa [BitVec.toNat_pos, BitVec.pos_iff_ne_zero] using h)
      else
        .finite s (1#1 ++ m).toNat
          (e.toNat - ((S.exponentBias : Int) + S.mantissaBitsWithoutImplicit)) (by simp) := by
  unfold unpack
  simp only [unpackExponent_packComponents, unpackMantissa_packComponents,
    unpackSign_packComponents, Sign.ofBitVec_toBitVec]

theorem zero_ne_neg_one (S : Format) : 0#S.exponentBits ≠ -1#S.exponentBits := by
  intro h
  have htwo : 2 ^ 1 ≤ 2 ^ S.exponentBits := Nat.pow_le_pow_right (by omega) S.he
  rw [BitVec.neg_one_eq_allOnes, ← BitVec.toNat_inj, BitVec.toNat_allOnes, BitVec.toNat_zero] at h
  omega

theorem repack_infinity (s : Sign) : repack S (.infinity s) = .infinity s := by
  show unpack S (packComponents S s (-1#_) 0#_) = _
  rw [unpack_packComponents, if_pos rfl, if_pos rfl]

theorem repack_zero (s : Sign) : repack S (.zero s) = .zero s :=
  unpack_packedZero

theorem repack_notANumber : repack S .notANumber = .notANumber :=
  unpack_packedNaN

/-- A normal value comes back: its implicit bit is dropped and put back. -/
theorem unpack_normal (s : Sign) {m : Nat} {e : Int} (hpos : 0 < m) (hm : m < 2 ^ S.mantissaBits)
    (he : S.minExponent ≤ e) (hfits : e < S.minExponent + exponentRange S)
    (hle : 2 ^ S.mantissaBitsWithoutImplicit ≤ m) :
    unpack S (packComponents S s
      (BitVec.ofNat _ (e + S.exponentBias + S.mantissaBitsWithoutImplicit).toNat)
      (BitVec.ofNat _ m)) = .finite s m e hpos := by
  have hmin := minExponent_eq S
  have hplace : (e + S.exponentBias + S.mantissaBitsWithoutImplicit).toNat + 1 <
      2 ^ S.exponentBits := by
    unfold exponentRange at hfits
    omega
  have hfield : (BitVec.ofNat S.exponentBits
      (e + S.exponentBias + S.mantissaBitsWithoutImplicit).toNat).toNat =
      (e + S.exponentBias + S.mantissaBitsWithoutImplicit).toNat := by
    rw [BitVec.toNat_ofNat, Nat.mod_eq_of_lt (by omega)]
  rw [unpack_packComponents, if_neg, if_neg, UnpackedFloat.finite.injEq, toNat_implicit,
    BitVec.toNat_ofNat, hfield]
  · refine ⟨rfl, ?_, by omega⟩
    rw [mantissaBits_eq, Nat.pow_succ] at hm
    rw [Nat.mod_eq_sub_mod hle, Nat.mod_eq_of_lt (by omega)]
    omega
  · intro h
    rw [← BitVec.toNat_inj, hfield, BitVec.toNat_zero] at h
    omega
  · intro h
    rw [BitVec.neg_one_eq_allOnes, ← BitVec.toNat_inj, hfield, BitVec.toNat_allOnes] at h
    omega

/-- A value below the least normal one comes back. -/
theorem unpack_subnormal (s : Sign) {m : Nat} (hpos : 0 < m)
    (hlt : m < 2 ^ S.mantissaBitsWithoutImplicit) :
    unpack S (packComponents S s 0#_ (BitVec.ofNat _ m)) = .finite s m S.minExponent hpos := by
  have hmin := minExponent_eq S
  have hfield : (BitVec.ofNat S.mantissaBitsWithoutImplicit m).toNat = m := by
    rw [BitVec.toNat_ofNat, Nat.mod_eq_of_lt hlt]
  rw [unpack_packComponents, if_neg (zero_ne_neg_one S), if_pos rfl, dif_neg,
    UnpackedFloat.finite.injEq, hfield, BitVec.toNat_zero]
  · exact ⟨rfl, rfl, by omega⟩
  · intro h
    rw [← BitVec.toNat_inj, hfield, BitVec.toNat_zero] at h
    omega

/-- A finite canonical result comes back if it fits. -/
theorem repack_of_fits {u : UnpackedFloat} (hu : IsCanonical S u) (hfits : Fits S u) :
    repack S u = u := by
  cases hu with
  | infinity s => exact repack_infinity s
  | notANumber => exact repack_notANumber
  | zero s => exact repack_zero s
  | finite s m e hpos hm he hnormal =>
    have hmin := minExponent_eq S
    have hfits' : e < S.minExponent + exponentRange S := hfits
    unfold repack pack
    simp only
    rw [if_neg (by unfold exponentRange at hfits'; omega)]
    split
    · next hbits =>
      have hlog : S.mantissaBitsWithoutImplicit ≤ m.log2 := by
        rw [mantissaBits_eq] at hbits
        omega
      exact unpack_normal s hpos hm he hfits' ((Nat.le_log2 (by omega)).mp hlog)
    · next hbits =>
      have hlog : m.log2 < S.mantissaBitsWithoutImplicit := by
        have hlt := (Nat.log2_lt (by omega)).mpr hm
        rw [mantissaBits_eq] at hbits hlt
        omega
      have hlt := (Nat.log2_lt (by omega)).mp hlog
      have hleast : e = S.minExponent := hnormal.resolve_right (by omega)
      subst hleast
      exact unpack_subnormal s hpos hlt

/-- A finite canonical result that does not fit comes back as infinity. -/
theorem repack_of_not_fits {s : Sign} {m : Nat} {e : Int} {hpos : 0 < m}
    (hfits : ¬ Fits S (.finite s m e hpos)) :
    repack S (.finite s m e hpos) = .infinity s := by
  have hmin := minExponent_eq S
  have hfits' : ¬ e < S.minExponent + exponentRange S := hfits
  unfold repack pack
  simp only
  rw [if_pos (by unfold exponentRange at hfits'; omega)]
  exact repack_infinity s

/-! ## Signs -/

/-- The sign of a value that is not zero. -/
def signOf? : UnpackedFloat → Option Sign
  | .infinity s | .finite s .. => some s
  | .notANumber | .zero _ => none

theorem lt_zero_iff (u : UnpackedFloat) (t : Sign) :
    u.lt (.zero t) = true ↔ signOf? u = some .negative := by
  cases u with
  | infinity s => cases s <;> simp [UnpackedFloat.lt, UnpackedFloat.compare, signOf?]
  | notANumber => simp [UnpackedFloat.lt, UnpackedFloat.compare, signOf?]
  | zero s => simp [UnpackedFloat.lt, UnpackedFloat.compare, signOf?]
  | finite s m e hpos => cases s <;> simp [UnpackedFloat.lt, UnpackedFloat.compare, signOf?]

theorem zero_lt_iff (u : UnpackedFloat) (t : Sign) :
    (UnpackedFloat.zero t).lt u = true ↔ signOf? u = some .positive := by
  cases u with
  | infinity s => cases s <;> simp [UnpackedFloat.lt, UnpackedFloat.compare, signOf?]
  | notANumber => simp [UnpackedFloat.lt, UnpackedFloat.compare, signOf?]
  | zero s => simp [UnpackedFloat.lt, UnpackedFloat.compare, signOf?]
  | finite s m e hpos => cases s <;> simp [UnpackedFloat.lt, UnpackedFloat.compare, signOf?]

/-- A finite result comes back with its sign, as a finite value, a zero or infinity. -/
theorem repack_finite_cases (s : Sign) (m : Nat) (e : Int) (hpos : 0 < m) :
    repack S (.finite s m e hpos) = .infinity s ∨ repack S (.finite s m e hpos) = .zero s ∨
      ∃ m' e' hpos', repack S (.finite s m e hpos) = .finite s m' e' hpos' := by
  -- whatever the mantissa field holds, an exponent field that is not full means a finite value
  have hcomponents (exponent : BitVec S.exponentBits) (hexponent : exponent ≠ -1#_)
      (mantissa : BitVec S.mantissaBitsWithoutImplicit) :
      unpack S (packComponents S s exponent mantissa) = .zero s ∨
        ∃ m' e' hpos', unpack S (packComponents S s exponent mantissa) = .finite s m' e' hpos' := by
    rw [unpack_packComponents, if_neg hexponent]
    split
    · split
      · left; rfl
      · next hmantissa =>
        right
        exact ⟨mantissa.toNat, _,
          by simpa [BitVec.toNat_pos, BitVec.pos_iff_ne_zero] using hmantissa, rfl⟩
    · right
      exact ⟨_, _, by simp, rfl⟩
  unfold repack pack
  simp only
  split
  · left
    exact repack_infinity s
  · next hfits =>
    right
    split
    · refine hcomponents _ ?_ _
      intro h
      rw [BitVec.neg_one_eq_allOnes, ← BitVec.toNat_inj, BitVec.toNat_allOnes, BitVec.toNat_ofNat,
        Nat.mod_eq_of_lt (by omega)] at h
      omega
    · exact hcomponents _ (zero_ne_neg_one S) _

/-- A result that comes back with a sign had that sign. -/
theorem signOf?_of_repack {u : UnpackedFloat} {s : Sign} (h : signOf? (repack S u) = some s) :
    signOf? u = some s := by
  cases u with
  | infinity t =>
    rw [repack_infinity] at h
    exact h
  | notANumber =>
    rw [repack_notANumber] at h
    exact h
  | zero t =>
    rw [repack_zero] at h
    exact h
  | finite t m e hpos =>
    rcases repack_finite_cases t m e hpos with heq | heq | ⟨m', e', hpos', heq⟩
    · rw [heq] at h
      exact h
    · rw [heq] at h
      cases h
    · rw [heq] at h
      exact h

/-- Only what is not a number comes back so. -/
theorem isNaN_repack (u : UnpackedFloat) : (repack S u).isNaN = u.isNaN := by
  cases u with
  | infinity s => rw [repack_infinity]
  | notANumber => rw [repack_notANumber]
  | zero s => rw [repack_zero]
  | finite s m e hpos =>
    rcases repack_finite_cases s m e hpos with heq | heq | ⟨m', e', hpos', heq⟩
    · rw [heq]; rfl
    · rw [heq]; rfl
    · rw [heq]; rfl

end Descent.Binary
