/-
# The inverse as a matrix

The estimate of the inverse second derivative that the variable metric applies without
forming it, written out as a matrix: a multiple of the identity, changed by one rank-two
update for each pair, from the oldest to the newest.  The arithmetic is exact.

* `updateInverse`, `inverseMatrix` : the matrix;
* `Support.View` : the coordinates that a support acts on;
* `Support.View.coords_applyInverse` : the recursion multiplies by the matrix;
* `applyInverse_scale_newest` : the secant equation;
* `Metric.compute_eq_quasiNewton` : which directions a variable metric gives.
-/
import Mathlib
import Descent.Direction.Metric
import Descent.Direction.TwoLoop
import Descent.Proofs.Exact.Real

namespace Descent

open Scalar Matrix

/-! ## The matrix -/

section Matrices

variable {ι : Type} [Fintype ι] [DecidableEq ι]

/-- The inverse estimate after a displacement `s` with the gradient change `y`. -/
noncomputable def updateInverse (s y : ι → ℝ) (H : Matrix ι ι ℝ) : Matrix ι ι ℝ :=
  let ρ := 1 / (s ⬝ᵥ y)
  (1 - ρ • vecMulVec s y) * H * (1 - ρ • vecMulVec y s) + ρ • vecMulVec s s

omit [DecidableEq ι] in
/-- The size of the inverse that the newest of the pairs suggests. -/
noncomputable def suggestedSize : List ((ι → ℝ) × (ι → ℝ)) → ℝ
  | [] => 1
  | (s, y) :: _ => (s ⬝ᵥ y) / (y ⬝ᵥ y)

/-- A multiple of the identity after an update for each pair; the pairs are given newest
first, and the oldest one is applied first. -/
noncomputable def updateAll (γ : ℝ) (pairs : List ((ι → ℝ) × (ι → ℝ))) : Matrix ι ι ℝ :=
  pairs.foldr (fun pair H => updateInverse pair.1 pair.2 H) (γ • 1)

/-- The inverse estimate of a list of pairs, newest first. -/
noncomputable def inverseMatrix (pairs : List ((ι → ℝ) × (ι → ℝ))) : Matrix ι ι ℝ :=
  updateAll (suggestedSize pairs) pairs

/-- An updated matrix times a vector: the share of the pair is taken out of the vector
before the matrix is applied, and the result is corrected along the displacement. -/
theorem updateInverse_mulVec (s y v : ι → ℝ) (H : Matrix ι ι ℝ) :
    updateInverse s y H *ᵥ v =
      H *ᵥ (v - (1 / (s ⬝ᵥ y) * (s ⬝ᵥ v)) • y) +
        (1 / (s ⬝ᵥ y) * (s ⬝ᵥ v) -
          1 / (s ⬝ᵥ y) * (y ⬝ᵥ H *ᵥ (v - (1 / (s ⬝ᵥ y) * (s ⬝ᵥ v)) • y))) • s := by
  have hshare : (1 - (1 / (s ⬝ᵥ y)) • vecMulVec y s) *ᵥ v =
      v - (1 / (s ⬝ᵥ y) * (s ⬝ᵥ v)) • y := by
    rw [sub_mulVec, one_mulVec, smul_mulVec, vecMulVec_mulVec, op_smul_eq_smul, smul_smul]
  unfold updateInverse
  dsimp only
  rw [add_mulVec, ← mulVec_mulVec, ← mulVec_mulVec, hshare, sub_mulVec, one_mulVec]
  rw [smul_mulVec, vecMulVec_mulVec, smul_mulVec, vecMulVec_mulVec, op_smul_eq_smul,
    op_smul_eq_smul, smul_smul, smul_smul, sub_smul]
  abel

/-- An updated matrix takes the gradient change, and every multiple of it, to the displacement. -/
theorem updateInverse_mulVec_smul {s y : ι → ℝ} (h : s ⬝ᵥ y ≠ 0) (H : Matrix ι ι ℝ) (a : ℝ) :
    updateInverse s y H *ᵥ (a • y) = a • s := by
  have hshare : 1 / (s ⬝ᵥ y) * (s ⬝ᵥ a • y) = a := by
    rw [dotProduct_smul, smul_eq_mul]
    field_simp
  rw [updateInverse_mulVec, hshare, sub_self, mulVec_zero, dotProduct_zero, mul_zero, sub_zero,
    zero_add]

end Matrices

/-! ## Coordinates of a support -/

variable {n : Nat}

/-- Coordinates in which the operations over a support are those of linear algebra. -/
structure Support.View (support : Support n) (ι : Type) [Fintype ι] where
  /-- The coordinates of a vector. -/
  coords : Vector ℝ n → ι → ℝ
  /-- Inner products are formed of the coordinates. -/
  inner_eq (x y : Vector ℝ n) : support.inner x y = coords x ⬝ᵥ coords y
  /-- Sums are formed in each coordinate. -/
  add_eq (a : ℝ) (x y : Vector ℝ n) : coords (support.add a x y) = coords y + a • coords x
  /-- Multiples are formed in each coordinate. -/
  scale_eq (a : ℝ) (x : Vector ℝ n) : coords (scale a x) = a • coords x

namespace Support.View

/-- All coordinates. -/
def all : (Support.whole (n := n)).View (Fin n) where
  coords := Descent.coords
  inner_eq := dot_eq
  add_eq := coords_axpy
  scale_eq := coords_scale

/-- The selected coordinates. -/
def selected (mask : Vector Bool n) : (Support.only mask).View (Selected mask) where
  coords := coordsOn mask
  inner_eq := maskedDot_eq mask
  add_eq := coordsOn_maskedAxpy mask
  scale_eq := coordsOn_scale mask

variable {support : Support n} {ι : Type} [Fintype ι] [DecidableEq ι]

omit [DecidableEq ι] in
/-- The pairs of positive curvature in the coordinates. -/
noncomputable def pairs (view : support.View ι) (kept : List (CurvaturePair ℝ n)) :
    List ((ι → ℝ) × (ι → ℝ)) :=
  (kept.map fun p => (view.coords p.s, view.coords p.y)).filter fun pair => 0 < pair.1 ⬝ᵥ pair.2

omit [DecidableEq ι] in
/-- The inverse curvature of a pair in the coordinates. -/
theorem inverseCurvature_eq (view : support.View ι) {p : CurvaturePair ℝ n} (hp : p.Valid) :
    p.inverseCurvature support =
      if 0 < view.coords p.s ⬝ᵥ view.coords p.y then 1 / (view.coords p.s ⬝ᵥ view.coords p.y)
      else 0 := by
  rw [← view.inner_eq]
  cases support with
  | whole => exact hp.inverse.trans (if_pos hp.pos).symm
  | only mask => rfl

omit [DecidableEq ι] in
/-- A pair of positive curvature heads the list. -/
theorem pairs_cons_of_pos (view : support.View ι) {p : CurvaturePair ℝ n}
    (h : 0 < view.coords p.s ⬝ᵥ view.coords p.y) (older : List (CurvaturePair ℝ n)) :
    view.pairs (p :: older) = (view.coords p.s, view.coords p.y) :: view.pairs older := by
  simp [pairs, h]

omit [DecidableEq ι] in
theorem pairs_cons_of_not_pos (view : support.View ι) {p : CurvaturePair ℝ n}
    (h : ¬ 0 < view.coords p.s ⬝ᵥ view.coords p.y) (older : List (CurvaturePair ℝ n)) :
    view.pairs (p :: older) = view.pairs older := by
  simp [pairs, h]

omit [DecidableEq ι] in
/-- The size that a pair of positive curvature suggests. -/
theorem inverseSize_eq (view : support.View ι) {p : CurvaturePair ℝ n} (hp : p.Valid)
    (hpos : 0 < view.coords p.s ⬝ᵥ view.coords p.y) :
    p.inverseSize support =
      (view.coords p.s ⬝ᵥ view.coords p.y) / (view.coords p.y ⬝ᵥ view.coords p.y) := by
  unfold CurvaturePair.inverseSize
  rw [view.inverseCurvature_eq hp, if_pos hpos, view.inner_eq, one_div_mul_eq_div, one_div_div]

omit [DecidableEq ι] in
/-- A pair of positive curvature suggests a positive size. -/
theorem inverseSize_pos (view : support.View ι) {p : CurvaturePair ℝ n} (hp : p.Valid)
    (hpos : 0 < view.coords p.s ⬝ᵥ view.coords p.y) : 0 < p.inverseSize support := by
  have hne : view.coords p.y ≠ 0 := by
    intro hzero
    rw [hzero, dotProduct_zero] at hpos
    exact hpos.false
  rw [view.inverseSize_eq hp hpos]
  exact div_pos hpos (dotProduct_self_star_pos_iff.mpr hne)

/-- The recursion multiplies by the matrix of its pairs.  The size is the one given, or
the one that the newest pair suggests. -/
theorem coords_applyInverse (view : support.View ι) {kept : List (CurvaturePair ℝ n)}
    (hkept : ∀ p ∈ kept, p.Valid) {γ : ℝ} (hγ : 0 ≤ γ) (v : Vector ℝ n) :
    view.coords (applyInverse support kept γ v) =
      updateAll (if γ = 0 then suggestedSize (view.pairs kept) else γ) (view.pairs kept) *ᵥ
        view.coords v := by
  induction kept generalizing γ v with
  | nil =>
    unfold applyInverse
    rcases hγ.eq_or_lt with hzero | hpos
    · subst hzero
      simp [updateAll, pairs, suggestedSize]
    · simp [updateAll, pairs, hpos, hpos.ne', view.scale_eq, smul_mulVec]
  | cons p older ih =>
    have holder : ∀ q ∈ older, q.Valid := fun q hq => hkept q (List.mem_cons_of_mem p hq)
    have hρ := view.inverseCurvature_eq (hkept p List.mem_cons_self)
    unfold applyInverse
    by_cases hpos : 0 < view.coords p.s ⬝ᵥ view.coords p.y
    · rw [if_pos hpos] at hρ
      have hne : ¬ (p.inverseCurvature support == 0) = true := by
        rw [beq_iff_eq, hρ]
        exact (one_div_pos.mpr hpos).ne'
      -- from here on the size is positive
      obtain ⟨δ, hδ, hsize⟩ : ∃ δ, 0 < δ ∧ (if γ == 0 then p.inverseSize support else γ) = δ := by
        refine ⟨_, ?_, rfl⟩
        by_cases hzero : γ = 0
        · rw [if_pos (beq_iff_eq.mpr hzero)]
          exact view.inverseSize_pos (hkept p List.mem_cons_self) hpos
        · rw [if_neg (by rwa [beq_iff_eq])]
          exact lt_of_le_of_ne hγ (Ne.symm hzero)
      have hδ' : (if γ = 0 then suggestedSize (view.pairs (p :: older)) else γ) = δ := by
        rw [← hsize, view.inverseSize_eq (hkept p List.mem_cons_self) hpos,
          view.pairs_cons_of_pos hpos]
        simp only [beq_iff_eq]
        rfl
      rw [hδ', view.pairs_cons_of_pos hpos]
      simp only [hne, Bool.false_eq_true, if_false, hsize]
      -- the result for the older pairs
      have hr := ih holder hδ.le (support.add (-(p.inverseCurvature support *
        support.inner p.s v)) p.y v)
      rw [if_neg hδ.ne', view.add_eq, neg_smul, ← sub_eq_add_neg, hρ, view.inner_eq] at hr
      rw [view.add_eq, view.inner_eq, view.inner_eq, hρ, hr]
      exact (updateInverse_mulVec _ _ _ _).symm
    · rw [if_neg hpos] at hρ
      have heq : (p.inverseCurvature support == 0) = true := by rw [beq_iff_eq, hρ]
      rw [view.pairs_cons_of_not_pos hpos]
      simp only [heq, if_true]
      exact ih holder hγ v

end Support.View

/-- **The secant equation.**  The inverse takes the newest gradient change, and every multiple of
it, to its displacement. -/
theorem applyInverse_scale_newest {p : CurvaturePair ℝ n} {older : List (CurvaturePair ℝ n)}
    (hkept : ∀ q ∈ p :: older, q.Valid) (a : ℝ) :
    applyInverse .whole (p :: older) 0 (scale a p.y) = scale a p.s := by
  have hpos : 0 < coords p.s ⬝ᵥ coords p.y := dot_eq p.s p.y ▸ (hkept p List.mem_cons_self).pos
  have hcoords := Support.View.all.coords_applyInverse hkept le_rfl (scale a p.y)
  rw [Support.View.all.pairs_cons_of_pos hpos, Support.View.all.scale_eq] at hcoords
  refine coords_injective ?_
  rw [coords_scale]
  exact hcoords.trans (updateInverse_mulVec_smul hpos.ne' _ a)

/-! ## Directions -/

/-- The direction `-H v` for the matrix `H` of the pairs. -/
noncomputable def quasiNewton (kept : List (CurvaturePair ℝ n)) (v : Vector ℝ n) : Vector ℝ n :=
  let pairs := kept.map fun p => (coords p.s, coords p.y)
  Vector.ofFn (-(inverseMatrix pairs *ᵥ coords v))

/-- The direction that is zero outside a mask and `-H v` on the selected components, for
the matrix `H` of the selected components of the pairs that have positive curvature there. -/
noncomputable def quasiNewtonOn (mask : Vector Bool n) (kept : List (CurvaturePair ℝ n))
    (v : Vector ℝ n) : Vector ℝ n :=
  let pairs := (kept.map fun p => (coordsOn mask p.s, coordsOn mask p.y)).filter
    fun pair => 0 < pair.1 ⬝ᵥ pair.2
  ofCoordsOn mask (-(inverseMatrix pairs *ᵥ coordsOn mask v))

/-- Over all components the recursion gives the direction of all pairs. -/
theorem scale_applyInverse_whole {kept : List (CurvaturePair ℝ n)} (hkept : ∀ p ∈ kept, p.Valid)
    (v : Vector ℝ n) : scale (-1) (applyInverse .whole kept 0 v) = quasiNewton kept v := by
  have hall : Support.View.all.pairs kept = kept.map fun p => (coords p.s, coords p.y) := by
    refine List.filter_eq_self.mpr ?_
    intro pair hpair
    obtain ⟨p, hp, rfl⟩ := List.mem_map.mp hpair
    rw [decide_eq_true_eq]
    exact dot_eq p.s p.y ▸ (hkept p hp).pos
  have hcoords := Support.View.all.coords_applyInverse hkept le_rfl v
  rw [if_pos rfl, hall] at hcoords
  refine coords_injective ?_
  rw [coords_scale, quasiNewton, coords_ofFn, neg_one_smul]
  exact congrArg Neg.neg hcoords

/-- Outside its mask the recursion leaves zeros alone. -/
theorem getElem_applyInverse_of_masked (mask : Vector Bool n) (kept : List (CurvaturePair ℝ n))
    (γ : ℝ) (v : Vector ℝ n) {i : Nat} (hi : i < n) (hmask : mask[i] = false) (hv : v[i] = 0) :
    (applyInverse (.only mask) kept γ v)[i] = 0 := by
  have hadd (a : ℝ) (x y : Vector ℝ n) : ((Support.only mask).add a x y)[i] = y[i] := by
    refine (getElem_maskedAxpy mask a x y i hi).trans ?_
    rw [hmask, if_neg Bool.false_ne_true]
  induction kept generalizing γ v with
  | nil =>
    unfold applyInverse
    split
    · rw [getElem_scale, hv, mul_zero]
    · exact hv
  | cons p older ih =>
    unfold applyInverse
    dsimp only
    split
    · exact ih γ v hv
    · rw [hadd]
      exact ih _ _ ((hadd _ _ _).trans hv)

/-- Over a mask the recursion gives the direction of the pairs that have positive curvature
there. -/
theorem scale_applyInverse_only (mask : Vector Bool n) {kept : List (CurvaturePair ℝ n)}
    (hkept : ∀ p ∈ kept, p.Valid) (v : Vector ℝ n) :
    scale (-1) (applyInverse (.only mask) kept 0 (restrict mask v)) =
      quasiNewtonOn mask kept v := by
  have hrestrict : (Support.View.selected mask).coords (restrict mask v) = coordsOn mask v := by
    funext i
    have hi := i.2
    simp only [Fin.getElem_fin] at hi
    simp [Support.View.selected, coordsOn, restrict, indicator, hi]
  have hcoords := (Support.View.selected mask).coords_applyInverse hkept le_rfl (restrict mask v)
  rw [if_pos rfl, hrestrict] at hcoords
  refine eq_ofCoordsOn ?_ ?_
  · rw [coordsOn_scale, neg_one_smul]
    exact congrArg Neg.neg hcoords
  · intro i hi hmask
    have hzero : (restrict mask v)[i] = 0 := by simp [restrict, indicator, hmask]
    rw [getElem_scale, getElem_applyInverse_of_masked mask kept 0 _ hi hmask hzero, mul_zero]

/-- The directions are those of the matrices, projected where there are bounds. -/
theorem metricDirection_eq {kept : List (CurvaturePair ℝ n)} (hkept : ∀ p ∈ kept, p.Valid)
    (c : Config ℝ) (box : Box ℝ n) (x g pg : Vector ℝ n) :
    metricDirection c box kept x g pg =
      match c.metric with
      | .lbfgs => quasiNewton kept g
      | .blmvm => box.projectDirection x (quasiNewton kept pg)
      | .vmlmb => box.projectDirection x (quasiNewtonOn (box.free x g) kept g) := by
  unfold metricDirection
  cases c.metric with
  | lbfgs => exact scale_applyInverse_whole hkept g
  | blmvm => exact congrArg (box.projectDirection x) (scale_applyInverse_whole hkept pg)
  | vmlmb => exact congrArg (box.projectDirection x) (scale_applyInverse_only _ hkept g)

/-- **The directions of a variable metric.**  Whatever was asked of it before, the two
loops turn a vector into minus the product with the matrix of the pairs kept, and over a
mask into the same for the selected components and into zero elsewhere.  The directions
computed are these, projected where there are bounds. -/
theorem Metric.compute_eq_quasiNewton (c : Config ℝ) (requests : List (Request ℝ n)) :
    let kept := (after c requests).pairs
    (∀ v, scale (-1) (twoLoop .whole kept v) = quasiNewton kept v) ∧
    (∀ mask v, scale (-1) (twoLoop (.only mask) kept (restrict mask v)) =
      quasiNewtonOn mask kept v) ∧
    ∀ box x g pg, ((after c requests).perform c (.compute box x g pg)).direction =
      match c.metric with
      | .lbfgs => quasiNewton kept g
      | .blmvm => box.projectDirection x (quasiNewton kept pg)
      | .vmlmb => box.projectDirection x (quasiNewtonOn (box.free x g) kept g) := by
  have hkept := valid_of_mem_after c requests
  refine ⟨?_, ?_, ?_⟩
  · intro v
    rw [twoLoop_eq_applyInverse, scale_applyInverse_whole hkept]
  · intro mask v
    rw [twoLoop_eq_applyInverse, scale_applyInverse_only mask hkept]
  · exact metricDirection_eq hkept c

end Descent
