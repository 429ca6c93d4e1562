/-
# Optimality on a box

In exact arithmetic the projected gradient of a point of a box measures how far the point is from
being stationary: it is zero exactly where no direction into the box descends to first order, and
exactly where projected steepest descent does not move.  A run without tolerance therefore
converges at the first-order optimal points of its box, and nowhere else.

* `Interval.Path.blocked_or_moves` : a component is blocked, or it moves for some time;
* `Interval.stationary_tfae` : a stationary component;
* `Box.dot_difference_nonneg_iff` : variations of a point vary its components one by one;
* `Box.stationary_tfae` : a stationary point;
* `Optimizer.converges_iff_optimal` : where a run without tolerance converges.
-/
import Mathlib
import Descent.Proofs.ClippedSteps

namespace Descent

open Scalar ExactScalar StrictScalar Matrix

variable {α : Type} [Scalar α] [ExactScalar α] {n : Nat}

/-! ## One component -/

namespace Interval

variable {I : Interval α} {x d : ℝ} {r : Reach α}

/-- A component of a path is blocked and stays where it is, or it moves freely for some time. -/
theorem Path.blocked_or_moves (h : I.Path x d r) :
    (I.projectVelocity (ofReal x) (ofReal d) = 0 ∧
        ∀ t, 0 ≤ t → I.clamp (ofReal (x + t * d)) = ofReal x) ∨
      (d ≠ 0 ∧ I.projectVelocity (ofReal x) (ofReal d) = ofReal d ∧
        ∃ σ, 0 < σ ∧ I.clamp (ofReal (x + σ * d)) = ofReal (x + σ * d)) := by
  cases h with
  | still hd hclamp =>
    refine .inl ⟨?_, fun t _ => ?_⟩
    · rw [hd, ofReal_zero]
      exact ite_self 0
    · rw [hd, mul_zero, add_zero, hclamp]
  | @within σ hd hσ hclamp hvelocity =>
    rcases hσ.eq_or_lt with rfl | hpos
    · refine .inl ⟨?_, fun t ht => ?_⟩
      · rw [hvelocity, if_pos rfl, ofReal_zero]
      · rw [hclamp t ht, min_eq_right ht, zero_mul, add_zero]
    · refine .inr ⟨hd, ?_, σ, hpos, ?_⟩
      · rw [hvelocity, if_neg hpos.ne']
      · rw [hclamp σ hσ, min_self]
  | unlimited hd hclamp hvelocity =>
    exact .inr ⟨hd, hvelocity, 1, one_pos, hclamp 1 zero_le_one⟩

variable [StrictScalar α]

theorem projectVelocity_neg (I : Interval α) (x g : α) :
    I.projectVelocity x (-g) = -I.projectGradient x g := by
  unfold projectVelocity projectGradient blocks
  simp only [neg_lt_zero_iff, zero_lt_neg_iff]
  split
  · exact StrictScalar.neg_zero.symm
  · rfl

/-- **A stationary component.**  A value of an interval has projected derivative zero exactly if
no other value of the interval is lower to first order, and exactly if steepest descent, projected,
does not move it. -/
theorem stationary_tfae (hI : I.Valid) (hx : I.contains (ofReal x) = true) (g : ℝ) :
    List.TFAE [I.projectGradient (ofReal x) (ofReal g) = 0,
      ∀ z : ℝ, I.contains (ofReal z) = true → 0 ≤ g * (z - x),
      ∀ t : ℝ, 0 ≤ t → I.clamp (ofReal (x - t * g)) = ofReal x] := by
  have hpath := (path_reach hI hx (-g)).blocked_or_moves
  have hvelocity : I.projectVelocity (ofReal x) (ofReal (-g)) =
      -I.projectGradient (ofReal x) (ofReal g) := by
    rw [ofReal_neg, projectVelocity_neg]
  simp only [hvelocity, mul_neg, ← sub_eq_add_neg] at hpath
  tfae_have 1 → 3 := by
    intro hzero
    rcases hpath with ⟨-, hstays⟩ | ⟨hg, hfree, -⟩
    · exact hstays
    · rw [hzero, StrictScalar.neg_zero, ← ofReal_zero] at hfree
      exact absurd (ofReal_injective hfree).symm hg
  tfae_have 3 → 2 := by
    intro hstays z hz
    by_contra hlower
    rw [not_le] at hlower
    -- steepest descent passes through the lower value, which is not moved
    have hg : g ≠ 0 := by
      rintro rfl
      rw [zero_mul] at hlower
      exact hlower.false
    have ht : 0 ≤ (x - z) / g := by
      have hquotient : (x - z) / g = -(g * (z - x)) / (g * g) := by
        field_simp
        ring
      rw [hquotient]
      exact div_nonneg (neg_nonneg.mpr hlower.le) (mul_self_nonneg g)
    have hreached := hstays _ ht
    rw [div_mul_cancel₀ _ hg, sub_sub_cancel, clamp_of_contains hz] at hreached
    rw [ofReal_injective hreached, sub_self, mul_zero] at hlower
    exact hlower.false
  tfae_have 2 → 1 := by
    intro hleast
    rcases hpath with ⟨hblocked, -⟩ | ⟨hg, -, σ, hσ, hmoves⟩
    · rw [← StrictScalar.neg_neg (I.projectGradient _ _), hblocked, StrictScalar.neg_zero]
    · have hin : I.contains (ofReal (x - σ * g)) = true := by
        rw [← hmoves]
        exact contains_clamp hI (isNaN_ofReal _)
      have hpos : 0 < σ * (g * g) := mul_pos hσ (mul_self_pos.mpr (neg_ne_zero.mp hg))
      linarith [hleast _ hin]
  tfae_finish

end Interval

/-! ## Points of a box -/

namespace Box

variable {box : Box α n}

/-- The projected gradient of a finite gradient and its norm. -/
theorem exists_projectedGradient (box : Box α n) (x : Vector α n) (g : Vector ℝ n) :
    ∃ P : Vector ℝ n, box.projectedGradient x (ofReals g) = ofReals P ∧
      box.projectedGradientNorm x (ofReals g) = ofReal (norm2 P) := by
  have hfinite (i : Nat) (hi : i < n) : isFinite (ofReals g : Vector α n)[i] = true := by
    rw [getElem_ofReals, isFinite_ofReal]
  -- they are the effective ones in the box of the same sides that counts as bounded
  obtain ⟨-, P, -, hgradient, -, hnorm⟩ :=
    (⟨box.sides, true⟩ : Box α n).exists_effectiveGradient x hfinite
  exact ⟨P, hgradient, hnorm⟩

/-- The norm of the projected gradient is zero exactly if all its components are. -/
theorem projectedGradientNorm_eq_zero_iff (box : Box α n) (x : Vector α n) (g : Vector ℝ n) :
    box.projectedGradientNorm x (ofReals g) = 0 ↔
      ∀ i (hi : i < n), (box.projectedGradient x (ofReals g))[i] = 0 := by
  obtain ⟨P, hgradient, hnorm⟩ := box.exists_projectedGradient x g
  have hroot : norm2 P = 0 ↔ coords P = 0 := by
    rw [norm2, dot_eq]
    exact (Real.sqrt_eq_zero (dot_eq P P ▸ dot_self_nonneg P)).trans dotProduct_self_eq_zero
  rw [hnorm, hgradient, ← ofReal_zero, ofReal_injective.eq_iff, hroot, funext_iff]
  simp only [getElem_ofReals, ofReal_injective.eq_iff]
  exact ⟨fun hzero i hi => hzero ⟨i, hi⟩, fun hzero i => hzero i i.isLt⟩

/-- The norm of the projected gradient is not negative. -/
theorem projectedGradientNorm_le_zero_iff (box : Box α n) (x : Vector α n) (g : Vector ℝ n) :
    box.projectedGradientNorm x (ofReals g) ≤ 0 ↔ box.projectedGradientNorm x (ofReals g) = 0 := by
  obtain ⟨P, -, hnorm⟩ := box.exists_projectedGradient x g
  have hroot : 0 ≤ norm2 P := Real.sqrt_nonneg _
  rw [hnorm, ← ofReal_zero, ofReal_le_ofReal, ofReal_injective.eq_iff]
  exact ⟨fun hle => le_antisymm hle hroot, fun heq => heq.le⟩

/-- An inner product with a difference that lies in one component. -/
theorem dot_difference_set (g X : Vector ℝ n) (i : Nat) (hi : i < n) (z : ℝ) :
    dot g (difference (X.set i z) X) = g[i] * (z - X[i]) := by
  have hsingle : coords (difference (X.set i z) X) = Pi.single ⟨i, hi⟩ (z - X[i]) := by
    funext j
    rw [coords_difference, Pi.sub_apply, Pi.single_apply, coords, coords, Fin.getElem_fin,
      Fin.getElem_fin, Vector.getElem_set]
    simp only [Fin.ext_iff, eq_comm (a := i)]
    split
    · next heq => simp only [heq]
    · exact sub_self _
  rw [dot_eq, hsingle, dotProduct_single]
  rfl

variable [StrictScalar α]

/-- No point of a box is lower to first order exactly if no component can be varied to be. -/
theorem dot_difference_nonneg_iff {X : Vector ℝ n} (hx : box.contains (ofReals X) = true)
    (g : Vector ℝ n) :
    (∀ z, box.contains z = true → 0 ≤ dot (ofReals g) (difference z (ofReals X))) ↔
      ∀ i (hi : i < n) (z : ℝ), box.sides[i].contains (ofReal z) = true →
        0 ≤ g[i] * (z - X[i]) := by
  constructor
  · intro hleast i hi z hz
    have hin : box.contains (ofReals (X.set i z)) = true := by
      rw [contains_iff] at hx ⊢
      intro j hj
      rw [getElem_ofReals, Vector.getElem_set]
      split
      · next heq =>
        subst heq
        exact hz
      · have hside := hx j hj
        rwa [getElem_ofReals] at hside
    have hvaried := hleast _ hin
    rwa [difference_ofReals, dot_ofReals, zero_le_ofReal, dot_difference_set] at hvaried
  · intro hleast z hz
    obtain ⟨Z, rfl⟩ := exists_ofReals_of_contains hz
    rw [contains_iff] at hz
    rw [difference_ofReals, dot_ofReals, zero_le_ofReal, dot_eq, coords_difference]
    apply Finset.sum_nonneg
    intro i _
    have hside := hz i i.isLt
    rw [getElem_ofReals] at hside
    exact hleast i i.isLt Z[i] hside

/-- Projected steepest descent does not move a point exactly if it moves no component. -/
theorem project_descent_eq_iff (hbox : box.Valid) (X g : Vector ℝ n) :
    (∀ t : ℝ, 0 ≤ t →
        box.project (difference (ofReals X) (scale (ofReal t) (ofReals g))) = ofReals X) ↔
      ∀ i (hi : i < n) (t : ℝ), 0 ≤ t →
        box.sides[i].clamp (ofReal (X[i] - t * g[i])) = ofReal X[i] := by
  have hcomponent (t : ℝ) (i : Nat) (hi : i < n) :
      (box.project (difference (ofReals X) (scale (ofReal t) (ofReals g))))[i] =
        box.sides[i].clamp (ofReal (X[i] - t * g[i])) := by
    rw [hbox.getElem_project, scale_ofReals, difference_ofReals, getElem_ofReals,
      getElem_difference, getElem_scale]
  simp only [Vector.ext_iff, hcomponent, getElem_ofReals]
  exact ⟨fun hstays i hi t ht => hstays t ht i hi, fun hstays t ht i hi => hstays i hi t ht⟩

/-- **A stationary point.**  For a point of a box and a gradient there, these are the same: the
norm of the projected gradient is zero; all its components are; no point of the box is lower to
first order; and projected steepest descent does not move the point. -/
theorem stationary_tfae (hbox : box.Valid) {x : Vector α n} (hx : box.contains x = true)
    (g : Vector ℝ n) :
    List.TFAE [box.projectedGradientNorm x (ofReals g) = 0,
      ∀ i (hi : i < n), (box.projectedGradient x (ofReals g))[i] = 0,
      ∀ z, box.contains z = true → 0 ≤ dot (ofReals g) (difference z x),
      ∀ t : ℝ, 0 ≤ t → box.project (difference x (scale (ofReal t) (ofReals g))) = x] := by
  obtain ⟨X, rfl⟩ := exists_ofReals_of_contains hx
  have hside (i : Nat) (hi : i < n) : box.sides[i].contains (ofReal X[i]) = true := by
    have h := (contains_iff box _).mp hx i hi
    rwa [getElem_ofReals] at h
  have hcomponent (i : Nat) (hi : i < n) :=
    Interval.stationary_tfae (hbox.sides i hi) (hside i hi) g[i]
  have hgradient (i : Nat) (hi : i < n) : (box.projectedGradient (ofReals X) (ofReals g))[i] =
      box.sides[i].projectGradient (ofReal X[i]) (ofReal g[i]) := by
    rw [getElem_projectedGradient, getElem_ofReals, getElem_ofReals]
  tfae_have 1 ↔ 2 := box.projectedGradientNorm_eq_zero_iff _ g
  tfae_have 2 ↔ 3 := by
    rw [dot_difference_nonneg_iff hx]
    apply forall₂_congr
    intro i hi
    rw [hgradient]
    exact (hcomponent i hi).out 0 1
  tfae_have 2 ↔ 4 := by
    rw [project_descent_eq_iff hbox]
    apply forall₂_congr
    intro i hi
    rw [hgradient]
    exact (hcomponent i hi).out 0 2
  tfae_finish

omit [StrictScalar α] in
/-- At the finite points of a valid box the norm that decides about stationarity is that of the
projected gradient, with or without bounds. -/
theorem Valid.effectiveNorm_eq_projectedGradientNorm (hbox : box.Valid) (X g : Vector ℝ n) :
    box.effectiveNorm (ofReals X) (ofReals g) =
      box.projectedGradientNorm (ofReals X) (ofReals g) := by
  cases hbounded : box.bounded with
  | true => simp [effectiveNorm, hbounded]
  | false =>
    have hsame : box.projectedGradient (ofReals X) (ofReals g) = ofReals g := by
      ext i hi
      rw [getElem_projectedGradient, hbox.unbounded hbounded i hi, Interval.projectGradient,
        Interval.blocks_unbounded (by rw [getElem_ofReals, isFinite_ofReal])]
      rfl
    obtain ⟨P, hgradient, hnorm⟩ := box.exists_projectedGradient (ofReals X) g
    rw [hnorm, ← norm2_ofReals, ← hgradient, hsame, effectiveNorm, hbounded,
      if_neg Bool.false_ne_true]

end Box

/-! ## Runs without tolerance -/

namespace Optimizer

variable [StrictScalar α]

omit [StrictScalar α] in
/-- Without tolerances the norm has to be zero. -/
theorem larger_zero_mul (a : α) : larger 0 (0 * a) = 0 := by
  cases ha : isFinite a with
  | true =>
    obtain ⟨y, rfl⟩ := isFinite_iff.mp ha
    rw [← ofReal_zero, ← ofReal_mul, zero_mul, larger_ofReal, max_self]
  | false =>
    refine larger_eq_left ?_ ?_
    · rw [← ofReal_zero, isNaN_ofReal]
    · intro hle
      obtain ⟨-, y, -, hy, -⟩ := le_iff.mp hle
      have hfinite : isFinite (0 * a) = true := by rw [hy, isFinite_ofReal]
      rw [(isFinite_of_mul hfinite).2] at ha
      cases ha

/-- **Convergence and optimality.**  In every box that a run can work in, a point of the box has
the projected gradient zero, in norm or in each component, exactly if it is first-order optimal
for its gradient, and exactly if projected steepest descent leaves it in place.  A run without
tolerances that has accepted a point of its box has converged there exactly if it is first-order
optimal. -/
theorem converges_iff_optimal (x₀ : Vector α n) (c : Config α) (bounds : Bounds α) :
    (∀ box, Box.ofBounds bounds n = .ok box → ∀ x, box.contains x = true → ∀ g : Vector ℝ n,
      List.TFAE [box.projectedGradientNorm x (ofReals g) = 0,
        ∀ i (hi : i < n), (box.projectedGradient x (ofReals g))[i] = 0,
        ∀ z, box.contains z = true → 0 ≤ dot (ofReals g) (difference z x),
        ∀ t : ℝ, 0 ≤ t → box.project (difference x (scale (ofReal t) (ofReals g))) = x]) ∧
    (c.gatol = 0 → c.grtol = 0 → ∀ calls p,
      ((start x₀ c bounds).after calls).accepted? = some p →
      ∃ box, Box.ofBounds bounds n = .ok box ∧
        (box.contains p.x = true →
          (((start x₀ c bounds).after calls).task = .finalX ↔
            ∀ z, box.contains z = true → 0 ≤ dot p.g (difference z p.x)))) := by
  constructor
  · intro box hbox x hx g
    exact Box.stationary_tfae (Box.valid_of_ofBounds hbox) hx g
  · intro hgatol hgrtol calls p hp
    obtain ⟨box, p₀, hbox, -, -, htask⟩ := finalX_iff_norm_le_threshold x₀ c bounds calls hp
    refine ⟨box, hbox, fun hx => ?_⟩
    have hvalid := Box.valid_of_ofBounds hbox
    obtain ⟨earlier, call, later, -, -, s, -, htakes⟩ :=
      exists_takesUp_of_accepted? rfl (accepted?_start x₀ c bounds) calls hp
    obtain ⟨X, hX⟩ := Box.exists_ofReals_of_contains hx
    obtain ⟨G, hG⟩ := exists_ofReals htakes.isFinite.2
    have hstationary := (Box.stationary_tfae hvalid hx G).out 0 2
    rw [← hG, hX] at hstationary
    rw [htask, hgatol, hgrtol, larger_zero_mul, hX, ← hstationary, hG,
      hvalid.effectiveNorm_eq_projectedGradientNorm, Box.projectedGradientNorm_le_zero_iff]

/-- The projected variable metric without tolerances. -/
noncomputable def exacting : Config ℝ :=
  { projected with gatol := 0 }

theorem begin?_corner :
    begin? #v[0, 3] exacting (.ofSides strip) = .ok (.initial exacting ⟨strip, true⟩) := by
  have hvalid : exacting.validate = .ok () := by
    have hcurvature : exacting.curvatureTolerance = 0.9 := by
      simp [Config.curvatureTolerance, exacting, projected]
    simp only [Config.validate, checkTolerance, checkDelta, checkEpsilon, checkSearchConstants,
      checkMemory, checkWindow, hcurvature, isFinite_real]
    norm_num [exacting, projected]
    rfl
  rw [begin?, hvalid, checkStart_real _ two_pos, Box.ofBounds, resolve_ofSides valid_strip]
  rfl

/-- A run converges in the corner of the strip that its gradient points away from. -/
theorem corner_optimal :
    let box : Box ℝ 2 := ⟨strip, true⟩
    let o := (start #v[0, 3] exacting (.ofSides strip)).after [⟨#[0, 3], 1, #[4, -5]⟩]
    o.accepted? = some ⟨#v[0, 3], 1, #v[4, -5]⟩ ∧ o.task = .finalX ∧
      ∀ z, box.contains z = true → 0 ≤ dot #v[4, -5] (difference z #v[0, 3]) := by
  intro box o
  have hcorner : box.contains #v[0, 3] = true := contains_strip le_rfl (by norm_num) le_rfl
  have haccepted : o.accepted? = some ⟨#v[0, 3], 1, #v[4, -5]⟩ :=
    accepted?_after_first (g := #v[4, -5]) begin?_corner hcorner (flaw?_real 1 _)
  obtain ⟨hboxes, hruns⟩ := converges_iff_optimal #v[0, 3] exacting (.ofSides strip)
  have hbox : Box.ofBounds (.ofSides strip) 2 = .ok box := by
    rw [Box.ofBounds, resolve_ofSides valid_strip]
    rfl
  have hblocked : box.projectedGradient #v[0, 3] #v[4, -5] = zeros 2 := by
    show _ = #v[0, 0]
    norm_num [box, Box.projectedGradient, strip, Interval.projectGradient, Interval.blocks,
      Interval.atLower, Interval.atUpper]
  have hoptimal : ∀ z, box.contains z = true → 0 ≤ dot #v[4, -5] (difference z #v[0, 3]) := by
    have hequivalent := (hboxes box hbox #v[0, 3] hcorner #v[4, -5]).out 1 2
    rw [ofReals_real, hblocked] at hequivalent
    apply hequivalent.mp
    intro i hi
    exact Vector.getElem_replicate hi
  obtain ⟨box', hbox', hconverges⟩ := hruns rfl rfl _ _ haccepted
  cases hbox.symm.trans hbox'
  exact ⟨haccepted, (hconverges hcorner).mpr hoptimal, hoptimal⟩

end Optimizer

end Descent
