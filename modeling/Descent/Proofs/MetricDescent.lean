/-
# Descent of the variable metric

The matrix of a list of pairs is positive definite, since every update keeps it so, and
the directions of the variable metric therefore descend.  With bounds this holds of the
variant that is confined to the free components: the projection of its direction takes
away only components that do not descend.  The arithmetic is exact.

* `posDef_updateInverse`, `posDef_inverseMatrix` : the matrix is positive definite;
* `dot_projectDirection_le` : the projection keeps the slope;
* `Metric.compute_descends` : the directions computed descend and do not leave the box.
-/
import Mathlib
import Descent.Proofs.InverseMatrix
import Descent.Proofs.Projection

namespace Descent

open Scalar Matrix

/-! ## Positive definite matrices -/

section Matrices

variable {ι : Type} [Fintype ι] [DecidableEq ι]

/-- An updated matrix in the form `A H Aᵀ + ρ s sᵀ`. -/
theorem updateInverse_eq (s y : ι → ℝ) (H : Matrix ι ι ℝ) :
    updateInverse s y H =
      (1 - (1 / (s ⬝ᵥ y)) • vecMulVec s y) * H * (1 - (1 / (s ⬝ᵥ y)) • vecMulVec s y)ᴴ +
        (1 / (s ⬝ᵥ y)) • vecMulVec s s := by
  have htranspose : (1 - (1 / (s ⬝ᵥ y)) • vecMulVec s y)ᴴ = 1 - (1 / (s ⬝ᵥ y)) • vecMulVec y s := by
    simp
  rw [htranspose]
  rfl

/-- The quadratic form of an updated matrix. -/
theorem dotProduct_updateInverse_mulVec (s y v : ι → ℝ) (H : Matrix ι ι ℝ) :
    v ⬝ᵥ updateInverse s y H *ᵥ v =
      (v - (1 / (s ⬝ᵥ y) * (s ⬝ᵥ v)) • y) ⬝ᵥ H *ᵥ (v - (1 / (s ⬝ᵥ y) * (s ⬝ᵥ v)) • y) +
        1 / (s ⬝ᵥ y) * (s ⬝ᵥ v) ^ 2 := by
  rw [updateInverse_mulVec, dotProduct_add, sub_dotProduct, dotProduct_smul, smul_dotProduct,
    dotProduct_comm v s]
  simp only [smul_eq_mul]
  ring

/-- An update with positive curvature keeps a matrix positive definite. -/
theorem posDef_updateInverse {s y : ι → ℝ} {H : Matrix ι ι ℝ} (hH : H.PosDef)
    (hpos : 0 < s ⬝ᵥ y) : (updateInverse s y H).PosDef := by
  have hρ : 0 < 1 / (s ⬝ᵥ y) := one_div_pos.mpr hpos
  refine .of_dotProduct_mulVec_pos ?_ ?_
  · have hsquare : (vecMulVec s s).PosSemidef := posSemidef_vecMulVec_self_star s
    rw [updateInverse_eq]
    exact ((hH.posSemidef.mul_mul_conjTranspose_same _).add (hsquare.smul hρ.le)).isHermitian
  · intro v hv
    rw [star_trivial, dotProduct_updateInverse_mulVec]
    by_cases hrest : v - (1 / (s ⬝ᵥ y) * (s ⬝ᵥ v)) • y = 0
    · -- the vector is a multiple of `y`, so the displacement sees it
      have hsv : s ⬝ᵥ v ≠ 0 := by
        intro hzero
        rw [hzero, mul_zero, zero_smul, sub_zero] at hrest
        exact hv hrest
      rw [hrest, zero_dotProduct, zero_add]
      positivity
    · have hfirst := hH.dotProduct_mulVec_pos hrest
      rw [star_trivial] at hfirst
      positivity

omit [DecidableEq ι] in
/-- Pairs of positive curvature suggest a positive size. -/
theorem suggestedSize_pos {pairs : List ((ι → ℝ) × (ι → ℝ))}
    (hpairs : ∀ pair ∈ pairs, 0 < pair.1 ⬝ᵥ pair.2) : 0 < suggestedSize pairs := by
  cases pairs with
  | nil => exact one_pos
  | cons pair older =>
    have hpos := hpairs pair List.mem_cons_self
    have hne : pair.2 ≠ 0 := by
      intro hzero
      rw [hzero, dotProduct_zero] at hpos
      exact hpos.false
    exact div_pos hpos (dotProduct_self_star_pos_iff.mpr hne)

/-- The matrix of pairs of positive curvature is positive definite. -/
theorem posDef_inverseMatrix {pairs : List ((ι → ℝ) × (ι → ℝ))}
    (hpairs : ∀ pair ∈ pairs, 0 < pair.1 ⬝ᵥ pair.2) : (inverseMatrix pairs).PosDef := by
  have hall (γ : ℝ) (hγ : 0 < γ) : (updateAll γ pairs).PosDef := by
    induction pairs with
    | nil => exact PosDef.one.smul hγ
    | cons pair older ih =>
      have holder := ih fun q hq => hpairs q (List.mem_cons_of_mem pair hq)
      exact posDef_updateInverse holder (hpairs pair List.mem_cons_self)
  exact hall _ (suggestedSize_pos hpairs)

end Matrices

/-! ## Slopes -/

variable {n : Nat}

/-- The inner product with a vector that is zero outside a mask is formed over the mask. -/
theorem dot_eq_of_masked {mask : Vector Bool n} {v d : Vector ℝ n}
    (hd : ∀ i (hi : i < n), mask[i] = false → d[i] = 0) :
    dot v d = coordsOn mask v ⬝ᵥ coordsOn mask d := by
  rw [← maskedDot_eq, maskedDot_eq_sum, dot_eq]
  refine Finset.sum_congr rfl ?_
  intro i _
  by_cases hmask : mask[i] = true
  · rw [if_pos hmask]
  · rw [if_neg hmask]
    have hzero := hd i i.isLt (by simpa using hmask)
    simp [coords, hzero]

/-- The direction of all pairs descends. -/
theorem dot_quasiNewton_neg {kept : List (CurvaturePair ℝ n)} (hkept : ∀ p ∈ kept, p.Valid)
    {v : Vector ℝ n} (hv : coords v ≠ 0) : dot v (quasiNewton kept v) < 0 := by
  have hpairs : ∀ pair ∈ kept.map fun p => (coords p.s, coords p.y), 0 < pair.1 ⬝ᵥ pair.2 := by
    intro pair hpair
    obtain ⟨p, hp, rfl⟩ := List.mem_map.mp hpair
    exact dot_eq p.s p.y ▸ (hkept p hp).pos
  have hpos := (posDef_inverseMatrix hpairs).dotProduct_mulVec_pos hv
  rw [dot_eq, quasiNewton, coords_ofFn, dotProduct_neg]
  exact neg_neg_of_pos hpos

/-- Outside its mask the direction of the masked pairs is zero. -/
theorem getElem_quasiNewtonOn_of_masked (mask : Vector Bool n) (kept : List (CurvaturePair ℝ n))
    (v : Vector ℝ n) {i : Nat} (hi : i < n) (hmask : mask[i] = false) :
    (quasiNewtonOn mask kept v)[i] = 0 :=
  getElem_ofCoordsOn_of_masked _ hi hmask

/-- The direction of the masked pairs descends. -/
theorem dot_quasiNewtonOn_neg (mask : Vector Bool n) (kept : List (CurvaturePair ℝ n))
    {v : Vector ℝ n} (hv : coordsOn mask v ≠ 0) : dot v (quasiNewtonOn mask kept v) < 0 := by
  have hpairs : ∀ pair ∈ (kept.map fun p => (coordsOn mask p.s, coordsOn mask p.y)).filter
      fun pair => 0 < pair.1 ⬝ᵥ pair.2, 0 < pair.1 ⬝ᵥ pair.2 := by
    intro pair hpair
    exact of_decide_eq_true (List.mem_filter.mp hpair).2
  have hpos := (posDef_inverseMatrix hpairs).dotProduct_mulVec_pos hv
  rw [dot_eq_of_masked fun i hi => getElem_quasiNewtonOn_of_masked mask kept v hi, quasiNewtonOn,
    coordsOn_ofCoordsOn, dotProduct_neg]
  exact neg_neg_of_pos hpos

/-! ## Projections -/

/-- In a free component the projection of a velocity takes nothing away that descends. -/
theorem Interval.mul_projectVelocity_le {I : Interval ℝ} {x g d : ℝ} (h : I.blocks x g = false) :
    g * I.projectVelocity x d ≤ g * d := by
  unfold projectVelocity
  unfold blocks at h
  rw [Bool.or_eq_false_iff, Bool.and_eq_false_iff, Bool.and_eq_false_iff] at h
  split
  · next hout =>
    rw [mul_zero]
    rw [Bool.or_eq_true, Bool.and_eq_true, Bool.and_eq_true, decide_eq_true_eq,
      decide_eq_true_eq] at hout
    rcases hout with ⟨hat, hd⟩ | ⟨hat, hd⟩
    · have hg : ¬ 0 < g := by simpa [hat] using h.1
      exact mul_nonneg_of_nonpos_of_nonpos (not_lt.mp hg) hd.le
    · have hg : ¬ g < 0 := by simpa [hat] using h.2
      exact mul_nonneg (not_lt.mp hg) hd.le
  · exact le_rfl

theorem Interval.projectVelocity_zero (I : Interval ℝ) (x : ℝ) : I.projectVelocity x 0 = 0 := by
  simp [projectVelocity]

/-- At the lower end no velocity points down. -/
theorem Interval.projectVelocity_nonneg {I : Interval ℝ} {x lo : ℝ} (hlo : I.lower = some lo)
    (hx : x ≤ lo) (d : ℝ) : 0 ≤ I.projectVelocity x d := by
  have hat : I.atLower x = true := by simp [atLower, hlo, hx]
  unfold projectVelocity
  split
  · exact le_rfl
  · next hin =>
    rw [hat, Bool.true_and, Bool.or_eq_true, decide_eq_true_eq, not_or] at hin
    exact not_lt.mp hin.1

/-- At the upper end no velocity points up. -/
theorem Interval.projectVelocity_nonpos {I : Interval ℝ} {x hi : ℝ} (hhi : I.upper = some hi)
    (hx : hi ≤ x) (d : ℝ) : I.projectVelocity x d ≤ 0 := by
  have hat : I.atUpper x = true := by simp [atUpper, hhi, hx]
  unfold projectVelocity
  split
  · exact le_rfl
  · next hin =>
    rw [hat, Bool.true_and, Bool.or_eq_true, decide_eq_true_eq, not_or] at hin
    exact not_lt.mp hin.2

namespace Box

theorem Valid.getElem_projectDirection {box : Box ℝ n} (h : box.Valid) (x d : Vector ℝ n) (i : Nat)
    (hi : i < n) : (box.projectDirection x d)[i] = box.sides[i].projectVelocity x[i] d[i] :=
  h.getElem_projectDirection_of_finite (fun _ _ => isFinite_real _) d i hi

/-- Where blocked components do not move, the projection of a direction keeps its slope. -/
theorem dot_projectDirection_le {box : Box ℝ n} (h : box.Valid) {x g d : Vector ℝ n}
    (hd : ∀ i (hi : i < n), box.sides[i].blocks x[i] g[i] = true → d[i] = 0) :
    dot g (box.projectDirection x d) ≤ dot g d := by
  rw [dot_eq, dot_eq]
  refine Finset.sum_le_sum ?_
  intro i _
  change g[i.1] * (box.projectDirection x d)[i.1] ≤ g[i.1] * d[i.1]
  rw [h.getElem_projectDirection x d i i.isLt]
  cases hblocked : box.sides[i.1].blocks x[i.1] g[i.1] with
  | true => rw [hd i i.isLt hblocked, Interval.projectVelocity_zero]
  | false => exact Interval.mul_projectVelocity_le hblocked

/-- A projected gradient that is not zero has a free component that is not zero. -/
theorem coordsOn_free_ne_zero {box : Box ℝ n} {x g : Vector ℝ n}
    (h : box.projectedGradient x g ≠ zeros n) : coordsOn (box.free x g) g ≠ 0 := by
  intro hzero
  refine h ?_
  ext i hi
  rw [getElem_projectedGradient, getElem_zeros, Interval.projectGradient]
  split
  · rfl
  · next hfree =>
    have hmask : (box.free x g)[(⟨i, hi⟩ : Fin n)] = true := by
      simpa [getElem_free] using hfree
    exact congrFun hzero ⟨⟨i, hi⟩, hmask⟩

end Box

/-! ## Directions -/

/-- **Descent of the variable metric.**  Whatever was asked of it before, the direction for
a gradient that is not zero descends; with the metric confined to the free components of a
box it descends wherever the projected gradient is not zero, blocked components do not
move, and no component points out of the box at an end that it has reached. -/
theorem Metric.compute_descends (c : Config ℝ) (requests : List (Request ℝ n)) (box : Box ℝ n)
    (x g pg : Vector ℝ n) :
    let d := ((after c requests).perform c (.compute box x g pg)).direction
    (c.metric = .lbfgs → g ≠ zeros n → dot g d < 0) ∧
    (c.metric = .vmlmb → box.Valid → box.contains x = true →
      box.projectedGradient x g ≠ zeros n →
      dot g d < 0 ∧
      (∀ i (hi : i < n), box.sides[i].blocks x[i] g[i] = true → d[i] = 0) ∧
      (∀ i (hi : i < n) lo, box.sides[i].lower = some lo → x[i] = lo → 0 ≤ d[i]) ∧
      ∀ i (hi : i < n) hi', box.sides[i].upper = some hi' → x[i] = hi' → d[i] ≤ 0) := by
  have hkept := valid_of_mem_after c requests
  intro d
  have hd : d = _ := metricDirection_eq hkept c box x g pg
  clear_value d
  refine ⟨?_, ?_⟩
  · intro hmetric hg
    have hcoords : coords g ≠ 0 := by
      intro hzero
      refine hg (coords_injective (hzero.trans ?_))
      funext i
      exact (getElem_zeros i i.isLt).symm
    rw [hmetric] at hd
    rw [hd]
    exact dot_quasiNewton_neg hkept hcoords
  · intro hmetric hbox _ hpg
    rw [hmetric] at hd
    subst hd
    have hblocked : ∀ i (hi : i < n), box.sides[i].blocks x[i] g[i] = true →
        (quasiNewtonOn (box.free x g) (after c requests).pairs g)[i] = 0 := by
      intro i hi hblocks
      refine getElem_quasiNewtonOn_of_masked _ _ _ hi ?_
      rw [Box.getElem_free, hblocks]
      rfl
    refine ⟨?_, ?_, ?_, ?_⟩
    · exact (Box.dot_projectDirection_le hbox hblocked).trans_lt
        (dot_quasiNewtonOn_neg _ _ (Box.coordsOn_free_ne_zero hpg))
    · intro i hi hblocks
      rw [hbox.getElem_projectDirection, hblocked i hi hblocks, Interval.projectVelocity_zero]
    · intro i hi lo hlo hx
      rw [hbox.getElem_projectDirection]
      exact Interval.projectVelocity_nonneg hlo hx.le _
    · intro i hi hi' hhi hx
      rw [hbox.getElem_projectDirection]
      exact Interval.projectVelocity_nonpos hhi hx.ge _

/-- The quadrant of the points without negative components. -/
def Box.quadrant : Box ℝ 2 :=
  { sides := Vector.replicate 2 ⟨some 0, none⟩, bounded := true }

/-- The quadrant is a valid box. -/
theorem Box.valid_quadrant : quadrant.Valid := by
  constructor
  · intro i hi
    have hside : quadrant.sides[i] = ⟨some 0, none⟩ := by simp [quadrant]
    rw [hside]
    exact ⟨fun _ _ => rfl, fun _ _ => rfl, rfl⟩
  · intro hbounded
    cases hbounded

/-- At the corner of the quadrant, with a gradient that is blocked in its first component alone:
after an update both kinds of direction descend, and the confined one leaves the first component
where it is and does not push the second one out. -/
theorem Metric.descends_at_corner :
    let requests : List (Request ℝ 2) := [.update #v[1, 1] #v[1, 2]]
    let x : Vector ℝ 2 := zeros 2
    let g : Vector ℝ 2 := #v[1, -1]
    let pg := Box.quadrant.projectedGradient x g
    let free : Vector ℝ 2 :=
      ((after { metric := .lbfgs } requests).perform { metric := .lbfgs }
        (.compute Box.quadrant x g pg)).direction
    let confined : Vector ℝ 2 :=
      ((after { metric := .vmlmb } requests).perform { metric := .vmlmb }
        (.compute Box.quadrant x g pg)).direction
    (g ≠ zeros 2 ∧ dot g free < 0) ∧
      Box.quadrant.Valid ∧ Box.quadrant.contains x = true ∧ pg ≠ zeros 2 ∧
        Box.quadrant.sides[0].blocks x[0] g[0] = true ∧ dot g confined < 0 ∧ confined[0] = 0 ∧
        (0 : ℝ) ≤ confined[1] := by
  intro requests x g pg free confined
  have hg : g ≠ zeros 2 := by
    intro hzero
    have hfirst := congrArg (fun v : Vector ℝ 2 => v[0]) hzero
    simp [g, zeros] at hfirst
  have hin : Box.quadrant.contains x = true := by
    rw [Box.contains_iff]
    intro i hi
    simp [Box.quadrant, Interval.contains, x, zeros]
  have hpg : pg ≠ zeros 2 := by
    intro hzero
    have hsecond := congrArg (fun v : Vector ℝ 2 => v[1]) hzero
    simp [pg, g, x, zeros, Box.projectedGradient, Box.quadrant, Interval.projectGradient,
      Interval.blocks, Interval.atLower, Interval.atUpper] at hsecond
  have hblocks : Box.quadrant.sides[0].blocks x[0] g[0] = true := by
    simp [Box.quadrant, x, g, zeros, Interval.blocks, Interval.atLower]
  obtain ⟨hslope, hblocked, hlower, -⟩ :=
    (compute_descends { metric := .vmlmb } requests Box.quadrant x g pg).2 rfl Box.valid_quadrant
      hin hpg
  refine ⟨⟨hg, ?_⟩, Box.valid_quadrant, hin, hpg, hblocks, hslope, ?_, ?_⟩
  · exact (compute_descends { metric := .lbfgs } requests Box.quadrant x g pg).1 rfl hg
  · exact hblocked 0 (by decide) hblocks
  · exact hlower 1 (by decide) 0 (by simp [Box.quadrant]) (by simp [x, zeros])

end Descent
