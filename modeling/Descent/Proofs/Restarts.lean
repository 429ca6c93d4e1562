/-
# Restarts of conjugate gradients

An engine restarts from steepest descent where the weight of the last direction is not finite.  It
looks at the weight after the quotient in the formula has been moved into its range, and this can
hide that the quotient is not finite: by the formula of Polak, Ribière and Polyak only a positive
infinite one makes the engine restart, and by that of Hager and Zhang no other one either, unless
the least weight is not finite itself.

* `sumLanes_closed` : what sums in lanes keep of their terms;
* `Conjugate.not_pos_leastWeight` : the least weight is not positive, not even infinite;
* `isFinite_larger_eq_false_iff` : the larger of two scalars of which one is not positive;
* `Conjugate.isFinite_weight_eq_false_iff` : which weights are not finite;
* `Conjugate.restarts_iff` : which updates make an engine restart;
* `Conjugate.repeated_gradient_masked` : an update where the quotient is hidden.
-/
import Descent.Proofs.Binary.Signs
import Descent.Proofs.ConjugateWeights
import Descent.Proofs.Opening

namespace Descent

open Scalar OrderedScalar SignScalar

variable {α : Type} [Scalar α] {n : Nat}

/-! ## Sums -/

/-- A property of zero that sums inherit from their terms holds of sums in lanes. -/
theorem sumLanes_closed {P : α → Prop} (hzero : P 0) (hadd : ∀ a b, P a → P b → P (a + b))
    {p₀ p₁ p₂ p₃ p₄ p₅ p₆ p₇ : α} {terms : List α}
    (hlanes : ∀ v ∈ [p₀, p₁, p₂, p₃, p₄, p₅, p₆, p₇], P v) (hterms : ∀ v ∈ terms, P v) :
    P (sumLanes p₀ p₁ p₂ p₃ p₄ p₅ p₆ p₇ terms) := by
  fun_induction sumLanes p₀ p₁ p₂ p₃ p₄ p₅ p₆ p₇ terms with
  | case1 p₀ p₁ p₂ p₃ p₄ p₅ p₆ p₇ a₀ a₁ a₂ a₃ a₄ a₅ a₆ a₇ rest ih =>
    simp only [List.forall_mem_cons] at hlanes hterms ih
    obtain ⟨h₀, h₁, h₂, h₃, h₄, h₅, h₆, h₇, hnil⟩ := hlanes
    obtain ⟨k₀, k₁, k₂, k₃, k₄, k₅, k₆, k₇, hrest⟩ := hterms
    exact ih ⟨hadd _ _ h₀ k₀, hadd _ _ h₁ k₁, hadd _ _ h₂ k₂, hadd _ _ h₃ k₃, hadd _ _ h₄ k₄,
      hadd _ _ h₅ k₅, hadd _ _ h₆ k₆, hadd _ _ h₇ k₇, hnil⟩ hrest
  | case2 p₀ p₁ p₂ p₃ p₄ p₅ p₆ p₇ rest _ =>
    simp only [List.forall_mem_cons] at hlanes
    obtain ⟨h₀, h₁, h₂, h₃, h₄, h₅, h₆, h₇, -⟩ := hlanes
    -- the lanes are joined in pairs, from left to right
    refine List.foldlRecOn rest (· + ·) ?_ fun total htotal v hv => hadd _ _ htotal (hterms v hv)
    refine hadd _ _ (hadd _ _ (hadd _ _ (hadd _ _ hzero ?_) ?_) ?_) ?_
    · exact hadd _ _ h₀ h₄
    · exact hadd _ _ h₁ h₅
    · exact hadd _ _ h₂ h₆
    · exact hadd _ _ h₃ h₇

variable [SignScalar α]

/-- An inner square bears no minus sign. -/
theorem unsigned_dot_self (x : Vector α n) : Unsigned (dot x x) := by
  have hlanes : ∀ v ∈ [(0 : α), 0, 0, 0, 0, 0, 0, 0], Unsigned v := by
    simpa using unsigned_zero
  refine sumLanes_closed unsigned_zero (fun _ _ => unsigned_add) hlanes ?_
  intro v hv
  obtain ⟨i, hi, rfl⟩ := mem_squares_iff.mp hv
  exact unsigned_square x[i]

/-! ## Extremes -/

/-- The larger of two scalars, the second of which is not positive, is not finite exactly if the
first is not, and is positive or has nothing finite to give way to. -/
theorem isFinite_larger_eq_false_iff {a b : α} (hb : ¬ 0 < b) :
    isFinite (larger a b) = false ↔ isFinite a = false ∧ (0 < a ∨ isFinite b = false) := by
  cases hfinite : isFinite a with
  | true =>
    -- a finite scalar does not give way to a number that is neither finite nor positive
    have hnan := isNaN_of_isFinite hfinite
    refine iff_of_false ?_ (by simp)
    rw [Bool.not_eq_false]
    by_cases hle : a ≤ b
    · rw [larger_eq_right hle]
      by_contra hinfinite
      rw [Bool.not_eq_true] at hinfinite
      have hge := le_of_not_finite (isNaN_right hle) hinfinite hb hnan
      rw [isFinite_of_between hfinite hfinite hle hge] at hinfinite
      cases hinfinite
    · rwa [larger_eq_left hnan hle]
  | false =>
    simp only [true_and]
    cases hnan : isNaN a with
    | true =>
      have hpos : ¬ 0 < a := by
        intro hpos
        rw [isNaN_right (le_of_lt hpos)] at hnan
        cases hnan
      rw [larger, if_pos hnan]
      simp [hpos]
    | false =>
      by_cases hpos : 0 < a
      · have hle : ¬ a ≤ b := by
          intro hle
          exact hb (lt_of_lt_of_le hpos hle)
        rw [larger_eq_left hnan hle]
        simp [hfinite, hpos]
      · cases hundefined : isNaN b with
        | true =>
          have hle : ¬ a ≤ b := by
            intro hle
            rw [isNaN_right hle] at hundefined
            cases hundefined
          have hinfinite : isFinite b = false := by
            by_contra hfinite'
            rw [Bool.not_eq_false] at hfinite'
            rw [isNaN_of_isFinite hfinite'] at hundefined
            cases hundefined
          rw [larger_eq_left hnan hle]
          simp [hfinite, hinfinite]
        | false =>
          rw [larger_eq_right (le_of_not_finite hnan hfinite hpos hundefined)]
          simp [hpos]

namespace Conjugate

/-! ## Weights -/

/-- The least weight is not positive. -/
theorem not_pos_leastWeight (last : Conjugate α n) : ¬ 0 < last.leastWeight := by
  have hsmaller : Unsigned (smaller (sqrt (dot last.gradient last.gradient)) 0.01) := by
    rcases smaller_eq_or (sqrt (dot last.gradient last.gradient)) 0.01 with heq | heq
    · rw [heq]
      exact unsigned_sqrt (unsigned_dot_self last.gradient)
    · rw [heq]
      exact unsigned_hundredth
  exact not_pos_of_unsigned
    (unsigned_mul (unsigned_sqrt (unsigned_dot_self last.direction)) hsmaller)

/-- Which weights are not finite. -/
theorem isFinite_weight_eq_false_iff (rule : ConjugacyRule) (last : Conjugate α n) (g : Vector α n)
    (step : α) :
    isFinite (weight rule last g step) = false ↔
      isFinite (last.quotient rule g step) = false ∧
        (rule = .polakRibierePolyak → 0 < last.quotient rule g step) ∧
        (rule = .hagerZhang →
          0 < last.quotient rule g step ∨ isFinite last.leastWeight = false) := by
  rw [weight_eq_clip]
  by_cases hclip : rule = .polakRibierePolyak
  · subst hclip
    simp only [clip]
    split
    · next hpos => simp [hpos]
    · next hpos => simp [hpos, RootScalar.isFinite_zero]
  · by_cases hleast : rule = .hagerZhang
    · subst hleast
      simp only [clip, isFinite_larger_eq_false_iff last.not_pos_leastWeight]
      simp
    · rw [clip_eq_self hclip hleast]
      simp [hclip, hleast]

/-- **Restarts.**  An engine restarts exactly if it tests for staleness and is stale, or if the
quotient in the formula for the weight is not finite and this is not hidden: by the formula of
Polak, Ribière and Polyak it has to be positive, and by that of Hager and Zhang it has to be
positive or to meet a least weight that is not finite.  A restart takes steepest descent, and any
other update gives the last direction a finite weight; both remember the gradient. -/
theorem restarts_iff (c : Config α) (last : Conjugate α n) (g : Vector α n) (step : α) :
    let q := last.quotient c.conjugacy g step
    let result := next c (some last) g step
    (result.2 = true ↔
      c.powell = true ∧ last.isStale g = true ∨
        isFinite q = false ∧ (c.conjugacy = .polakRibierePolyak → 0 < q) ∧
          (c.conjugacy = .hagerZhang → 0 < q ∨ isFinite last.leastWeight = false)) ∧
    (result.2 = true → result.1.direction = negate g ∧ result.1.updates = 0) ∧
    (result.2 = false →
      isFinite (last.clip c.conjugacy q) = true ∧
        result.1.direction = combine (-1) g (last.clip c.conjugacy q) last.direction ∧
        result.1.updates = last.updates + 1) ∧
    result.1.gradient = g := by
  intro q result
  have hweight := isFinite_weight_eq_false_iff c.conjugacy last g step
  by_cases hstale : c.powell = true ∧ last.isStale g = true
  · rw [show result = _ from next_of_stale hstale step]
    exact ⟨iff_of_true rfl (.inl hstale), fun _ => ⟨rfl, rfl⟩, nofun, rfl⟩
  · have hnext := next_of_fresh hstale step
    cases hfinite : isFinite (weight c.conjugacy last g step) with
    | true =>
      rw [hfinite, if_pos rfl] at hnext
      rw [hfinite] at hweight
      rw [show result = _ from hnext, ← hweight, ← weight_eq_clip]
      exact ⟨iff_of_false nofun (not_or.mpr ⟨hstale, nofun⟩), nofun,
        fun _ => ⟨hfinite, rfl, rfl⟩, rfl⟩
    | false =>
      rw [hfinite, if_neg Bool.false_ne_true] at hnext
      rw [show result = _ from hnext, ← hweight]
      exact ⟨iff_of_true rfl (.inr hfinite), fun _ => ⟨rfl, rfl⟩, nofun, rfl⟩

/-- The engine at a second gradient, one step of steepest descent after the first. -/
def second (rule : ConjugacyRule) (g g' : Vector α n) : Conjugate α n × Bool :=
  next { conjugacy := rule } (some (steepest g)) g' 1

/-- By the formula of Dai and Yuan a gradient change orthogonal to the last direction makes the
engine restart, in both precisions. -/
theorem orthogonal_change_restarts :
    ((second .daiYuan #v[(1 : Float), 0] #v[1, 1]).2 = true ∧
      (second .daiYuan #v[(1 : Float), 0] #v[1, 1]).1.direction = negate #v[1, 1]) ∧
    (second .daiYuan #v[(1 : Float32), 0] #v[1, 1]).2 = true ∧
      (second .daiYuan #v[(1 : Float32), 0] #v[1, 1]).1.direction = negate #v[1, 1] := by
  constructor
  · obtain ⟨hiff, hrestart, -, -⟩ :=
      restarts_iff { conjugacy := .daiYuan } (steepest #v[(1 : Float), 0]) #v[1, 1] 1
    have hquotient : isFinite ((steepest #v[(1 : Float), 0]).quotient .daiYuan #v[1, 1] 1) = false :=
      by decide +kernel
    have hrestarts := hiff.mpr (.inr ⟨hquotient, nofun, nofun⟩)
    exact ⟨hrestarts, (hrestart hrestarts).1⟩
  · obtain ⟨hiff, hrestart, -, -⟩ :=
      restarts_iff { conjugacy := .daiYuan } (steepest #v[(1 : Float32), 0]) #v[1, 1] 1
    have hquotient :
        isFinite ((steepest #v[(1 : Float32), 0]).quotient .daiYuan #v[1, 1] 1) = false := by
      decide +kernel
    have hrestarts := hiff.mpr (.inr ⟨hquotient, nofun, nofun⟩)
    exact ⟨hrestarts, (hrestart hrestarts).1⟩

/-- Where a gradient repeats itself the quotient is zero by zero.  By the formula of Hager and Zhang
this is hidden, and the next direction ascends; by that of Polak, Ribière and Polyak it is hidden
where the square of the gradient vanishes. -/
theorem repeated_gradient_masked :
    (isFinite ((steepest #v[(1 : Float)]).quotient .hagerZhang #v[1] 1) = false ∧
      (second .hagerZhang #v[(1 : Float)] #v[1]).2 = false ∧
      0 < dot #v[(1 : Float)] (second .hagerZhang #v[(1 : Float)] #v[1]).1.direction) ∧
    isFinite ((steepest #v[(1e-200 : Float)]).quotient .polakRibierePolyak #v[1e-200] 1) = false ∧
      (second .polakRibierePolyak #v[(1e-200 : Float)] #v[1e-200]).2 = false := by
  decide +kernel

end Conjugate

end Descent
