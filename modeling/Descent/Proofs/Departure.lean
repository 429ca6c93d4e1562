/-
# Leaving an accepted point

In exact arithmetic a run can always leave an accepted point: the projected gradient is
not zero there, so steepest descent passes the test of descent whatever the engine has
proposed, and the first step lies in a range that the line search admits.

* `Box.effectiveNorm_eq` : the norm recorded is that of the effective gradient;
* `descends_steepest` : steepest descent passes the test;
* `Solver.Poised` : what is known of a run that waits at an accepted point;
* `Solver.Poised.heading_descends` : the heading descends, after at most one restart;
* `Solver.legal_stepRange` : the range of steps is admitted;
* `Solver.advance_downhill` : what becomes of a run whose engine proposes steepest descent;
* `Optimizer.leaves_accepted_point` : the next search begins unless the budget is spent.
-/
import Mathlib
import Descent.Proofs.Exact.Strict
import Descent.Proofs.Opening

namespace Descent

open Scalar ExactScalar

variable {α : Type} [Scalar α] {n : Nat}

/-! ## Steepest descent -/

section Steepest

variable [ExactScalar α]

/-- A negative slope is that of a finite gradient along a finite direction. -/
theorem exists_ofReals_of_dot_neg {g d : Vector α n} (h : dot g d < 0) :
    ∃ G D : Vector ℝ n, g = ofReals G ∧ d = ofReals D := by
  have hfinite : isFinite (dot g d) = true := by
    obtain ⟨x, -, hx, -⟩ := lt_iff.mp h
    rw [hx, isFinite_ofReal]
  obtain ⟨G, hG⟩ := exists_ofReals fun i hi => (isFinite_of_isFinite_dot hfinite i hi).1
  obtain ⟨D, hD⟩ := exists_ofReals fun i hi => (isFinite_of_isFinite_dot hfinite i hi).2
  exact ⟨G, D, hG, hD⟩

/-- A slope that is not zero belongs to a direction of positive length. -/
theorem norm2_pos_of_dot_neg {g d : Vector α n} (h : dot g d < 0) : 0 < norm2 d := by
  obtain ⟨G, D, rfl, rfl⟩ := exists_ofReals_of_dot_neg h
  rw [dot_ofReals, ofReal_lt_zero] at h
  rw [norm2_ofReals, zero_lt_ofReal]
  refine Real.sqrt_pos.mpr ((dot_self_nonneg D).lt_of_ne ?_)
  intro hzero
  rw [dot_eq, eq_comm, dotProduct_self_eq_zero] at hzero
  rw [dot_eq, hzero, dotProduct_zero] at h
  exact h.false

/-- The effective gradient of finite gradients: its inner products with the gradient and with
itself agree, and its norm is the one that decides about stationarity. -/
theorem Box.exists_effectiveGradient (box : Box α n) (x : Vector α n) {g : Vector α n}
    (hg : ∀ i (hi : i < n), isFinite g[i] = true) :
    ∃ G P : Vector ℝ n, g = ofReals G ∧ box.effectiveGradient x g = ofReals P ∧
      dot G P = dot P P ∧ box.effectiveNorm x g = ofReal (norm2 P) := by
  obtain ⟨G, rfl⟩ := exists_ofReals hg
  cases hbounded : box.bounded with
  | false =>
    refine ⟨G, G, rfl, ?_, rfl, ?_⟩
    · simp [effectiveGradient, hbounded]
    · simp [effectiveNorm, hbounded, norm2_ofReals]
  | true =>
    -- the free components are kept, and all others are zero
    let mask := box.free x (ofReals G)
    let P : Vector ℝ n := Vector.ofFn fun i => if mask[i] then G[i] else 0
    have hproduct (i : Fin n) : coords G i * coords P i = if mask[i] = true then
        coords G i * coords G i else 0 := by
      simp only [coords, P, Fin.getElem_fin, Vector.getElem_ofFn, mul_ite, mul_zero]
    have hsquare (i : Fin n) : coords P i * coords P i = if mask[i] = true then
        coords G i * coords G i else 0 := by
      simp only [coords, P, Fin.getElem_fin, Vector.getElem_ofFn, mul_ite, ite_mul, mul_zero,
        zero_mul]
      split
      · rfl
      · rfl
    have hdot : dot G P = maskedDot mask G G := by
      rw [dot_eq, maskedDot_eq_sum]
      exact Finset.sum_congr rfl fun i _ => hproduct i
    have hself : dot P P = maskedDot mask G G := by
      rw [dot_eq, maskedDot_eq_sum]
      exact Finset.sum_congr rfl fun i _ => hsquare i
    refine ⟨G, P, rfl, ?_, hdot.trans hself.symm, ?_⟩
    · ext i hi
      rw [effectiveGradient, if_pos hbounded, getElem_projectedGradient, getElem_ofReals,
        getElem_ofReals, Vector.getElem_ofFn]
      simp only [mask, Fin.getElem_fin, getElem_free, getElem_ofReals, Interval.projectGradient]
      cases box.sides[i].blocks x[i] (ofReal G[i]) with
      | true => exact ofReal_zero.symm
      | false => rfl
    · have hroot : (0 : ℝ) ≤ maskedDot mask G G := hself ▸ dot_self_nonneg P
      rw [effectiveNorm, if_pos hbounded, projectedGradientNorm, maskedDot_ofReals,
        ← ofReal_sqrt hroot, norm2, hself]
      rfl

/-- The norm that decides about stationarity is that of the effective gradient. -/
theorem Box.effectiveNorm_eq (box : Box α n) (x : Vector α n) {g : Vector α n}
    (hg : ∀ i (hi : i < n), isFinite g[i] = true) :
    box.effectiveNorm x g = norm2 (box.effectiveGradient x g) := by
  obtain ⟨G, P, -, heffective, -, hnorm⟩ := box.exists_effectiveGradient x hg
  rw [hnorm, heffective, norm2_ofReals]

theorem dot_negate (x y : Vector ℝ n) : dot x (negate y) = -dot x y := by
  rw [dot_eq, dot_eq, coords_negate, dotProduct_neg]

theorem norm2_negate (x : Vector ℝ n) : norm2 (negate x) = norm2 x := by
  rw [norm2, norm2, dot_eq, dot_eq, coords_negate, neg_dotProduct_neg]

theorem norm2_mul_self (x : Vector ℝ n) : norm2 x * norm2 x = dot x x :=
  Real.mul_self_sqrt (dot_self_nonneg x)

/-- A descent threshold that is in range. -/
theorem exists_of_checkEpsilon {epsilon : α} (h : checkEpsilon epsilon = .ok ()) :
    ∃ e : ℝ, epsilon = ofReal e ∧ e < 1 := by
  unfold checkEpsilon at h
  split at h
  · cases h
  · next hrange =>
    rw [not_or, not_or, Bool.not_eq_true', Bool.not_eq_false] at hrange
    obtain ⟨hfinite, -, hone⟩ := hrange
    obtain ⟨e, rfl⟩ := isFinite_iff.mp hfinite
    rw [← ofReal_one, ofReal_le_ofReal, not_le] at hone
    exact ⟨e, rfl, hone⟩

/-- **Steepest descent descends.**  Where the projected gradient is not zero, the opposite
direction passes the test of descent. -/
theorem descends_steepest {c : Config α} (hepsilon : checkEpsilon c.epsilon = .ok ())
    {box : Box α n} {x g : Vector α n} (hg : ∀ i (hi : i < n), isFinite g[i] = true)
    (hpos : 0 < box.effectiveNorm x g) :
    descends c (dot g (negate (box.effectiveGradient x g))) (box.effectiveNorm x g)
      (norm2 (negate (box.effectiveGradient x g))) = true := by
  obtain ⟨e, he, hlt⟩ := exists_of_checkEpsilon hepsilon
  obtain ⟨G, P, rfl, heffective, hdot, hnorm⟩ := box.exists_effectiveGradient x hg
  rw [hnorm, zero_lt_ofReal] at hpos
  have hslope : dot G (negate P) = -(norm2 P * norm2 P) := by
    rw [dot_negate, hdot, norm2_mul_self]
  rw [heffective, hnorm, negate_ofReals, dot_ofReals, norm2_ofReals, hslope, norm2_negate,
    descends, he, ← ofReal_neg, ← ofReal_mul, ← ofReal_mul, Bool.and_eq_true, decide_eq_true_eq,
    decide_eq_true_eq, ofReal_lt_zero, ofReal_le_ofReal]
  have hsquare : 0 < norm2 P * norm2 P := mul_pos hpos hpos
  constructor
  · exact neg_neg_of_pos hsquare
  · nlinarith

end Steepest

/-! ## First steps -/

section Steps

variable [ExactScalar α]

/-- A relative size of first steps that is in range. -/
theorem exists_of_checkDelta {delta : α} (h : checkDelta delta = .ok ()) :
    ∃ r : ℝ, delta = ofReal r ∧ 0 < r := by
  unfold checkDelta at h
  split at h
  · cases h
  · next hfinite =>
    rw [Bool.not_eq_true', Bool.not_eq_false] at hfinite
    obtain ⟨r, rfl⟩ := isFinite_iff.mp hfinite
    split at h
    · cases h
    · next hpos =>
      rw [← ofReal_zero, ofReal_le_ofReal, not_le] at hpos
      exact ⟨r, rfl, hpos⟩

/-- The first step along a direction of positive length is positive. -/
theorem firstStep_pos {c : Config α} (hdelta : checkDelta c.delta = .ok ())
    (last : Option (StepRecord α)) (slope : α) {length : α} (hlength : 0 < length)
    (pointNorm : α) : 0 < firstStep c last slope length pointNorm := by
  obtain ⟨δ, hδ, hpos⟩ := exists_of_checkDelta hdelta
  have hsmall : 0 < smallStep c length pointNorm := by
    unfold smallStep
    split
    · next hpoint =>
      rw [hδ]
      exact pos_div (pos_mul (zero_lt_ofReal.mpr hpos) hpoint) hlength
    · exact pos_div pos_one hlength
  unfold firstStep
  split
  · split
    · next hestimate => exact hestimate.2
    · exact hsmall
  · exact hsmall

/-- The steps to consider are ones that a line search admits. -/
structure Solver.StepRange.Legal (range : Solver.StepRange α) : Prop where
  /-- The least step is positive. -/
  least_pos : 0 < range.least
  /-- The first step is not below it. -/
  least_le_first : range.least ≤ range.first
  /-- The greatest step is not below it. -/
  least_le_greatest : range.least ≤ range.greatest

/-- Along a direction of positive length the steps to consider are legal, also where bounds cut
the range off. -/
theorem Solver.legal_stepRange {c : Config α} (hdelta : checkDelta c.delta = .ok ())
    (s : Solver α n) (p : Point α n) {h : Heading α n} (hlength : 0 < h.length) :
    (s.stepRange c p h).Legal := by
  have hfirst : 0 < if 0 < h.engine.memoryLength then 1 else
      firstStep c s.last h.slope h.length (norm2 p.x) := by
    split
    · exact pos_one
    · exact firstStep_pos hdelta s.last h.slope hlength _
  obtain ⟨t, ht, hpos⟩ := exists_of_pos hfirst
  have htiny : (ofReal t : α) * 1e-20 = ofReal (t * 1e-20) := by
    rw [ofReal_mul, ofReal_ofScientific]
  have hhuge : (ofReal t : α) * 1e20 = ofReal (t * 1e20) := by
    rw [ofReal_mul, ofReal_ofScientific]
  have hleast : t * 1e-20 ≤ t * 1e20 := by
    have hscale : (1e-20 : ℝ) ≤ 1e20 := by norm_num
    exact mul_le_mul_of_nonneg_left hscale hpos.le
  have hless : t * 1e-20 ≤ t := by
    have hscale : (1e-20 : ℝ) ≤ 1 := by norm_num
    exact mul_le_of_le_one_right hpos.le hscale
  have htinypos : 0 < t * 1e-20 := by positivity
  unfold stepRange
  dsimp only
  rw [ht, htiny, hhuge]
  split
  · refine ⟨zero_lt_ofReal.mpr htinypos, ofReal_le_ofReal.mpr hless, ?_⟩
    dsimp only
    split
    · split
      · next last _ hlast =>
        obtain ⟨y, -, rfl, -⟩ := lt_iff.mp hlast
        exact OrderedScalar.le_larger (isNaN_ofReal y) (isNaN_ofReal _)
      · exact ofReal_le_ofReal.mpr hleast
    · exact ofReal_le_ofReal.mpr hleast
  · exact ⟨zero_lt_ofReal.mpr htinypos, ofReal_le_ofReal.mpr hless, ofReal_le_ofReal.mpr hleast⟩

/-- Along a slope that descends a line search with legal steps starts, and its first step lies in
their range. -/
theorem Solver.StepRange.Legal.exists_start {range : Solver.StepRange α} (h : range.Legal)
    (c : Config α) (recent : List α) (value : α) {slope : α} (hslope : slope < 0) :
    ∃ run, Run.start c recent value slope range.first range.least range.greatest = .ok run ∧
      run.frame.minStep = range.least ∧ run.frame.maxStep = range.greatest ∧
      range.least ≤ run.step ∧ run.step ≤ range.greatest := by
  have hfirst : 0 < range.first := OrderedScalar.lt_of_lt_of_le h.least_pos h.least_le_first
  have hzero : 0 ≤ range.least := OrderedScalar.le_of_lt h.least_pos
  unfold Run.start
  rw [if_neg (not_not.mpr hslope), if_neg]
  · refine ⟨_, rfl, rfl, rfl, ?_⟩
    exact OrderedScalar.smaller_larger_mem h.least_le_first h.least_le_greatest
  · rintro (hnot | hnot | hnot)
    · exact hnot hzero
    · exact hnot h.least_le_greatest
    · exact hnot hfirst

end Steps

/-! ## Engines -/

/-- Directions come from conjugate gradients. -/
def Engine.isConjugate : Engine α n → Bool
  | .conjugate _ => true
  | .metric _ => false

namespace Solver

/-- A departure keeps the kind of the engine. -/
theorem isConjugate_heading (c : Config α) (s : Solver α n) (p : Point α n) :
    (s.heading c p).engine.isConjugate = s.engine.isConjugate := by
  have hpropose : (s.propose c p).1.isConjugate = s.engine.isConjugate := by
    unfold propose
    cases s.engine with
    | conjugate last => rfl
    | metric pairs => rfl
  have hsteepest : (s.steepest p).1.isConjugate = s.engine.isConjugate := by
    unfold steepest
    cases s.engine with
    | conjugate last => rfl
    | metric pairs => rfl
  rcases s.heading_cases c p with ⟨hengine, -⟩ | ⟨hengine, -⟩
  · rw [hengine, hpropose]
  · rw [hengine, hsteepest]

/-- A transition keeps the kind of the engine. -/
theorem Transition.isConjugate_eq {c : Config α} {s s' : Solver α n} {x x' : Vector α n} {f : α}
    {g : Vector α n} (h : Transition c s x f g s' x') :
    s'.engine.isConjugate = s.engine.isConjugate := by
  cases h with
  | step trial remark hs hflaw hanswer =>
    show (learnFrom c s.engine trial _ _).isConjugate = _
    cases s.engine with
    | conjugate last => rfl
    | metric pairs => rfl
  | notDescent p hs hslope => exact s.isConjugate_heading c p
  | spentAtPoint p hs hslope hspent => exact s.isConjugate_heading c p
  | refused p range refusal hs hslope hleft hrange hstart => exact s.isConjugate_heading c p
  | search p range run hs hslope hleft hrange hstart => exact s.isConjugate_heading c p
  | _ => rfl

end Solver

/-! ## Runs that wait at an accepted point -/

namespace Solver

/-- What is known of a run that waits at an accepted point. -/
structure Poised (c : Config α) (s : Solver α n) (p : Point α n) : Prop where
  /-- It waits there. -/
  phase : s.phase = .accepted p
  /-- The settings are in range. -/
  valid : c.validate = .ok ()
  /-- The gradient is finite. -/
  finite : ∀ i (hi : i < n), isFinite p.g[i] = true
  /-- The norm on record is the one at the point. -/
  norm : s.norm = s.box.effectiveNorm p.x p.g
  /-- The point is not stationary. -/
  above : ¬ s.norm ≤ s.threshold c
  /-- Conjugate gradients have no bounds to respect. -/
  unbounded : s.engine.isConjugate = true → s.box.bounded = false

variable {c : Config α} {s : Solver α n} {p : Point α n}

/-- Steepest descent is opposite to the effective gradient, whatever the engine. -/
theorem Poised.steepest_eq (h : s.Poised c p) :
    (s.steepest p).2 = negate (s.box.effectiveGradient p.x p.g) := by
  unfold steepest
  cases hengine : s.engine with
  | conjugate last =>
    have hbounded := h.unbounded (by rw [hengine]; rfl)
    simp [Conjugate.steepest, Box.effectiveGradient, hbounded]
  | metric pairs => rfl

/-- A restart proposes steepest descent. -/
theorem Poised.propose_of_restart (h : s.Poised c p) (hrestart : (s.propose c p).2.2 = true) :
    (s.propose c p).2.1 = negate (s.box.effectiveGradient p.x p.g) := by
  unfold propose at hrestart ⊢
  cases hengine : s.engine with
  | conjugate last =>
    rw [hengine] at hrestart
    dsimp only at hrestart ⊢
    have hbounded := h.unbounded (by rw [hengine]; rfl)
    rw [Conjugate.next_eq_steepest_of_restart hrestart]
    simp [Conjugate.steepest, Box.effectiveGradient, hbounded]
  | metric pairs =>
    rw [hengine] at hrestart
    cases hrestart

variable [ExactScalar α]

/-- The norm at the point is positive. -/
theorem Poised.norm_pos (h : s.Poised c p) : 0 < s.norm := by
  obtain ⟨hgatol, -⟩ := Config.checks_of_validate h.valid
  obtain ⟨hfinite, hzero⟩ := zero_le_of_checkTolerance hgatol
  obtain ⟨t, ht⟩ := isFinite_iff.mp hfinite
  obtain ⟨G, P, -, -, -, hnorm⟩ := s.box.exists_effectiveGradient p.x h.finite
  have habove := h.above
  rw [threshold, OrderedScalar.le_larger_iff (OrderedScalar.isNaN_of_isFinite hfinite), not_or,
    h.norm, hnorm, ht, ofReal_le_ofReal, not_le] at habove
  rw [ht, zero_le_ofReal] at hzero
  rw [h.norm, hnorm, zero_lt_ofReal]
  exact hzero.trans_lt habove.1

/-- **The heading descends.**  Its direction passes the test of descent, and at most one restart
was needed for it. -/
theorem Poised.heading_descends (h : s.Poised c p) :
    descends c (s.heading c p).slope s.norm (s.heading c p).length = true ∧
      (s.heading c p).restarts ≤ 1 := by
  obtain ⟨-, -, -, hepsilon, -⟩ := Config.checks_of_validate h.valid
  have hsteepest : descends c (dot p.g (negate (s.box.effectiveGradient p.x p.g))) s.norm
      (norm2 (negate (s.box.effectiveGradient p.x p.g))) = true := by
    have hpos := h.norm_pos
    rw [h.norm] at hpos ⊢
    exact descends_steepest hepsilon h.finite hpos
  by_cases hproposed : descends c (dot p.g (s.propose c p).2.1) s.norm
      (norm2 (s.propose c p).2.1) = true
  · rw [heading_of_descends hproposed]
    refine ⟨hproposed, ?_⟩
    dsimp only
    split
    · exact Nat.le_refl 1
    · exact Nat.zero_le 1
  · -- a restart would have proposed steepest descent, which passes
    have hnone : (s.propose c p).2.2 = false := by
      rw [Bool.eq_false_iff]
      intro hrestart
      rw [h.propose_of_restart hrestart] at hproposed
      exact hproposed hsteepest
    rw [heading_of_not_descends hproposed, h.steepest_eq, hnone]
    exact ⟨hsteepest, Nat.le_refl 1⟩

/-- A line search that begins at an accepted point: its direction descends, steeply enough for
the threshold, and its first step is positive and lies in a legal range. -/
structure Departs (c : Config α) (box : Box α n) (p : Point α n) (trial : Trial α n) : Prop where
  /-- The search begins at the point. -/
  base_eq : trial.base = p
  /-- The slope is negative. -/
  slope_neg : dot p.g trial.direction < 0
  /-- The slope is far enough below zero. -/
  slope_le : dot p.g trial.direction ≤
    (-c.epsilon) * norm2 (box.effectiveGradient p.x p.g) * norm2 trial.direction
  /-- The first step is positive. -/
  step_pos : 0 < trial.run.step
  /-- The least step is not negative. -/
  minStep_nonneg : 0 ≤ trial.run.frame.minStep
  /-- The range is not empty. -/
  minStep_le_maxStep : trial.run.frame.minStep ≤ trial.run.frame.maxStep
  /-- The first step is in range. -/
  minStep_le : trial.run.frame.minStep ≤ trial.run.step
  /-- The first step is in range. -/
  le_maxStep : trial.run.step ≤ trial.run.frame.maxStep

variable {s' : Solver α n} {x x' : Vector α n} {f : α} {g : Vector α n}

/-- A run that is poised at a point leaves it with a line search, unless no evaluation is left. -/
theorem Poised.departs (h : s.Poised c p) (htrans : Transition c s x f g s' x') :
    s'.restarts = s.restarts + (s.heading c p).restarts ∧
      ((c.maxEvaluations ≤ s.evaluations ∧ s'.phase = .stopped (some p) .evaluationsSpent) ∨
        (s.evaluations < c.maxEvaluations ∧ ∃ trial, s'.phase = .searching trial ∧
          x' = trialPoint s.box p trial.direction trial.run.step ∧ Departs c s.box p trial)) := by
  obtain ⟨hdescends, -⟩ := h.heading_descends
  obtain ⟨-, -, hdelta, -⟩ := Config.checks_of_validate h.valid
  obtain ⟨hslope, hlength⟩ := s.heading_spec c p
  rw [descends, Bool.and_eq_true, decide_eq_true_eq, decide_eq_true_eq] at hdescends
  obtain ⟨hneg, hsteep⟩ := hdescends
  have hpos : 0 < (s.heading c p).length := by
    rw [hlength]
    rw [hslope] at hneg
    exact norm2_pos_of_dot_neg hneg
  have hlegal := (s.turn (s.heading c p)).legal_stepRange hdelta p hpos
  have hphase := h.phase
  cases htrans with
  | notDescent q hs hnot =>
    rw [hphase] at hs
    cases hs
    exact absurd hneg hnot
  | spentAtPoint q hs _ hspent =>
    rw [hphase] at hs
    cases hs
    exact ⟨rfl, .inl ⟨hspent, rfl⟩⟩
  | refused q range refusal hs _ hleft hrange hstart =>
    rw [hphase] at hs
    cases hs
    obtain ⟨run, hrun, -⟩ := hlegal.exists_start c s.recent p.f hneg
    rw [hrange, hrun] at hstart
    cases hstart
  | search q range run hs _ hleft hrange hstart =>
    rw [hphase] at hs
    cases hs
    obtain ⟨run', hrun, hmin, hmax, hleast, hgreatest⟩ :=
      hlegal.exists_start c s.recent p.f hneg
    rw [hrange, hrun] at hstart
    cases hstart
    refine ⟨rfl, .inr ⟨hleft, _, rfl, rfl, rfl, ?_, ?_, ?_, ?_, ?_, ?_, ?_⟩⟩
    · exact hslope ▸ hneg
    · rw [← Box.effectiveNorm_eq s.box p.x h.finite, ← h.norm]
      rw [hslope, hlength] at hsteep
      exact hsteep
    · exact OrderedScalar.lt_of_lt_of_le hlegal.least_pos hleast
    · rw [hmin]
      exact OrderedScalar.le_of_lt hlegal.least_pos
    · rw [hmin, hmax]
      exact hlegal.least_le_greatest
    · rw [hmin]
      exact hleast
    · rw [hmax]
      exact hgreatest
  | _ => simp_all only [reduceCtorEq]

end Solver

/-! ## Real numbers -/

theorem flaw?_real (f : ℝ) (g : Vector ℝ n) : flaw? f g = none :=
  flaw?_of_isFinite (isFinite_real f) fun i _ => isFinite_real g[i]

theorem checkStart_real (x : Vector ℝ n) (hn : 0 < n) : checkStart x.toArray = .ok () :=
  checkStart_of_isFinite (by rwa [x.size_toArray]) fun v _ => isFinite_real v

theorem Box.contains_whole (x : Vector ℝ n) : (Box.whole n : Box ℝ n).contains x = true := by
  rw [Box.contains_iff]
  intro i hi
  simp [Box.whole, Interval.contains]

theorem larger_tolerances {c : Config ℝ} (hgatol : c.gatol = 1e-6) (hgrtol : c.grtol = 0)
    (norm : ℝ) : larger c.gatol (c.grtol * norm) = 1e-6 := by
  rw [hgatol, hgrtol, zero_mul, StrictScalar.larger_real]
  norm_num

/-! ## Leaving by steepest descent -/

/-- A search begins with its first step where that lies in the range. -/
theorem Run.start_of_mem {c : Config ℝ} (hkind : c.lineSearch ≠ .nonmonotone) (recent : List ℝ)
    (value : ℝ) {slope first least greatest : ℝ} (hslope : slope < 0) (hleast : 0 < least)
    (hfirst : least ≤ first) (hgreatest : first ≤ greatest) :
    Run.start c recent value slope first least greatest =
      .ok
        { frame := { value, slope, minStep := least, maxStep := greatest }
          reference := value
          step := first
          trials := 0
          bracket := .start { value, slope, minStep := least, maxStep := greatest } first } := by
  unfold Run.start
  rw [if_neg (not_not_intro hslope), if_neg, if_neg hkind, StrictScalar.larger_real,
    StrictScalar.smaller_real, max_eq_left hfirst, min_eq_left hgreatest]
  rintro (hnot | hnot | hnot)
  · exact hnot hleast.le
  · exact hnot (hfirst.trans hgreatest)
  · exact hnot (hleast.trans_le hfirst)

/-- The first step along a direction as long as the point is the part of it that the settings
give. -/
theorem smallStep_self (c : Config ℝ) {r : ℝ} (hr : 0 < r) : smallStep c r r = c.delta := by
  rw [smallStep, if_pos hr, mul_div_assoc, div_self hr.ne', mul_one]

namespace Solver

/-- Steepest descent, with the engine that has proposed it. -/
noncomputable def downhill (engine : Engine ℝ n) (p : Point ℝ n) : Heading ℝ n :=
  { engine, direction := negate p.g, slope := -dot p.g p.g, length := norm2 p.g, restarts := 0 }

/-- The search along it, before its first step is evaluated. -/
noncomputable def trialDownhill (p : Point ℝ n) (range : StepRange ℝ) : Trial ℝ n :=
  let frame : Frame ℝ :=
    { value := p.f, slope := -dot p.g p.g, minStep := range.least, maxStep := range.greatest }
  { base := p
    direction := negate p.g
    firstHit := range.firstHit
    run :=
      { frame, reference := p.f, step := range.first, trials := 0,
        bracket := .start frame range.first } }

variable {c : Config ℝ} {s : Solver ℝ n} {p : Point ℝ n} {engine : Engine ℝ n} {h : Heading ℝ n}
  {range : StepRange ℝ} {t last : ℝ} {firstHit : Option ℝ}

/-- With the default tolerances a gradient that is not tiny does not end a run. -/
theorem settle_of_lt (hgatol : c.gatol = 1e-6) (hgrtol : c.grtol = 0) (hnorm : 1e-6 < s.norm)
    (hleft : s.iterations < c.maxIterations) : s.settle c p = .accepted p := by
  rw [settle, threshold, larger_tolerances hgatol hgrtol, if_neg (not_le.mpr hnorm),
    if_neg (Nat.not_le.mpr hleft)]

/-- Where an engine proposes steepest descent, that is the heading. -/
theorem heading_eq_downhill (hepsilon : c.epsilon < 1)
    (hpropose : s.propose c p = (engine, negate p.g, false)) (hnorm : s.norm = norm2 p.g)
    (hg : 0 < dot p.g p.g) : s.heading c p = downhill engine p := by
  have hdescends : descends c (-dot p.g p.g) (norm2 p.g) (norm2 p.g) = true := by
    rw [descends, Bool.and_eq_true, decide_eq_true_eq, decide_eq_true_eq, mul_assoc,
      norm2_mul_self]
    constructor
    · exact neg_neg_of_pos hg
    · nlinarith
  rw [heading_of_descends, hpropose, dot_negate, norm2_negate]
  · rfl
  · rw [hpropose, dot_negate, norm2_negate, hnorm]
    exact hdescends

theorem legal_of_first (ht : 0 < t) (hlast : t ≤ last) :
    (⟨t, t * 1e-20, last, firstHit⟩ : StepRange ℝ).Legal := by
  have hless : t * 1e-20 ≤ t := mul_le_of_le_one_right ht.le (by norm_num)
  exact ⟨by positivity, hless, hless.trans hlast⟩

/-- Without bounds the first step decides about the range. -/
theorem stepRange_of_unbounded (hbounded : s.box.bounded = false)
    (hfirst : (if 0 < h.engine.memoryLength then 1 else
      firstStep c s.last h.slope h.length (norm2 p.x)) = t) :
    s.stepRange c p h = ⟨t, t * 1e-20, t * 1e20, none⟩ := by
  rw [stepRange, hfirst, hbounded]
  rfl

/-- In a box the range ends where nothing moves any more. -/
theorem stepRange_of_last (hbounded : s.box.bounded = true)
    (hfirst : (if 0 < h.engine.memoryLength then 1 else
      firstStep c s.last h.slope h.length (norm2 p.x)) = t)
    (hlimits : s.box.stepLimits p.x h.direction = ⟨firstHit, some last⟩)
    (hleast : t * 1e-20 ≤ last) (hgreatest : last < t * 1e20) :
    s.stepRange c p h = ⟨t, t * 1e-20, last, firstHit⟩ := by
  rw [stepRange, hfirst, if_pos hbounded, hlimits]
  simp only [if_pos hgreatest, StrictScalar.larger_real, max_eq_left hleast]

/-- **Leaving by steepest descent.**  Where the engine proposes it and the first step lies in its
range, the run searches along it and hands back the point at that step. -/
theorem advance_downhill (hkind : c.lineSearch ≠ .nonmonotone) (hepsilon : c.epsilon < 1)
    (hs : s.phase = .accepted p) (hpropose : s.propose c p = (engine, negate p.g, false))
    (hnorm : s.norm = norm2 p.g) (hg : 0 < dot p.g p.g) (hleft : s.evaluations < c.maxEvaluations)
    (hrange : (s.turn (downhill engine p)).stepRange c p (downhill engine p) = range)
    (hlegal : range.Legal) (hgreatest : range.first ≤ range.greatest) (x : Vector ℝ n) (f : ℝ)
    (g : Vector ℝ n) :
    s.advance c x f g =
      ({ s.turn (downhill engine p) with phase := .searching (trialDownhill p range) },
        trialPoint s.box p (negate p.g) range.first) := by
  have hheading := heading_eq_downhill hepsilon hpropose hnorm hg
  have hslope : (downhill engine p).slope < 0 := neg_neg_of_pos hg
  rw [← hheading] at hslope hrange
  have hstart := Run.start_of_mem hkind s.recent p.f hslope hlegal.least_pos
    hlegal.least_le_first hgreatest
  rw [advance_of_search hs hslope hleft hrange hstart, hheading]
  rfl

end Solver

/-! ## Series of calls -/

namespace Optimizer

variable {x₀ : Vector α n} {c : Config α} {bounds : Bounds α}

/-- A box is refused unless the source of directions respects bounds. -/
theorem supported_of_begin? {s : Solver α n} (h : begin? x₀ c bounds = .ok s) :
    s.box.bounded = true → s.engine.isConjugate = false ∧ c.metric ≠ .lbfgs := by
  obtain ⟨-, -, box, -, hsupport, rfl⟩ := begin?_eq_ok h
  intro hbounded
  replace hbounded : box.bounded = true := hbounded
  rw [checkBoundsSupport, if_pos hbounded] at hsupport
  cases halgorithm : c.algorithm with
  | conjugateGradient =>
    rw [halgorithm] at hsupport
    cases hsupport
  | variableMetric =>
    refine ⟨by rw [Solver.initial, halgorithm]; rfl, fun hmetric => ?_⟩
    rw [halgorithm, hmetric] at hsupport
    cases hsupport

/-- Conjugate gradients begin without bounds only. -/
theorem unbounded_of_begin? {s : Solver α n} (h : begin? x₀ c bounds = .ok s) :
    s.engine.isConjugate = true → s.box.bounded = false := by
  intro hconjugate
  rw [← Bool.not_eq_true]
  intro hbounded
  obtain ⟨hkind, -⟩ := supported_of_begin? h hbounded
  rw [hconjugate] at hkind
  cases hkind

/-- A run that shows an accepted point is poised there. -/
theorem exists_poised (calls : List (Call α))
    (htask : ((start x₀ c bounds).after calls).task = .newX) :
    ∃ s box p, ((start x₀ c bounds).after calls).body = .ok s ∧
      Box.ofBounds bounds n = .ok box ∧ s.box = box ∧ s.Poised c p := by
  cases hbegin : (start x₀ c bounds).body with
  | error e =>
    rw [after_of_error hbegin, task, hbegin] at htask
    cases htask
  | ok s₀ =>
    obtain ⟨s, hs, hrecorded, hsbox⟩ := recorded_after hbegin calls
    obtain ⟨hvalid, -, box, hbox, -, hs₀⟩ := begin?_eq_ok hbegin
    have hsbox' : s.box = box := by
      rw [hsbox, hs₀]
      rfl
    have hopen : ((start x₀ c bounds).after calls).closed = false := by
      rw [closed_after]
      rfl
    rw [task_of_body hs] at htask
    obtain ⟨p, hphase⟩ := Solver.exists_accepted_of_newX htask
    have hp := Solver.accepted?_of_accepted hphase
    have hfinite : ∀ i (hi : i < n), isFinite p.g[i] = true := by
      obtain ⟨earlier, call, later, -, -, s₁, -, htakes⟩ :=
        exists_takesUp_of_accepted? rfl (accepted?_start x₀ c bounds) calls
          ((accepted?_of_body hopen hs).trans hp)
      exact htakes.isFinite.2
    have hunbounded : s.engine.isConjugate = true → s.box.bounded = false := by
      refine (reachable_after x₀ c bounds calls).invariant
        (P := fun s => s.engine.isConjugate = true → s.box.bounded = false) ?_ ?_ hs
      · intro s hs
        exact unbounded_of_begin? hs
      · intro s x f g s' x' htrans hs
        rw [htrans.isConjugate_eq, htrans.box_eq]
        exact hs
    refine ⟨s, box, p, hs, hbox, hsbox', hphase, hvalid, hfinite, hrecorded.norm p hp, ?_,
      hunbounded⟩
    rw [← hrecorded.converged p hp, htask]
    decide

/-- **Leaving an accepted point.**  In exact arithmetic an optimizer that shows an accepted
point goes on from there: the next call begins a line search along a direction that descends,
with a positive first step in a legal range, or it stops because no evaluation is left; and it
counts at most one restart. -/
theorem leaves_accepted_point [ExactScalar α] (calls : List (Call α))
    (htask : ((start x₀ c bounds).after calls).task = .newX) (x : Vector α n) (f : α)
    (g : Vector α n) :
    let o := (start x₀ c bounds).after calls
    ∃ o' x' box p, o.iterate x.toArray f g.toArray = .ok (o', x') ∧
      Box.ofBounds bounds n = .ok box ∧ o.accepted? = some p ∧
      o.restarts ≤ o'.restarts ∧ o'.restarts ≤ o.restarts + 1 ∧
      (c.maxEvaluations ≤ o.evaluations → o'.task = .warning ∧ o'.status = .tooManyEvaluations) ∧
      (o.evaluations < c.maxEvaluations → o'.task = .computeFG ∧
        ∃ s' trial, o'.body = .ok s' ∧ s'.phase = .searching trial ∧
          x' = (Solver.trialPoint box p trial.direction trial.run.step).toArray ∧
          Solver.Departs c box p trial) := by
  intro o
  obtain ⟨s, box, p, hs, hbox, rfl, hpoised⟩ := exists_poised calls htask
  have hopen : o.closed = false := closed_after _ calls
  have hrunning : s.task.isTerminal = false := by
    rw [Solver.task_of_accepted hpoised.phase]
    rfl
  have hconfig : o.config = c := config_after _ calls
  have hcount : o.restarts = s.restarts := by simp [restarts, solver?, o, hs]
  have hspent : o.evaluations = s.evaluations := evaluations_of_body hs
  have hiter := iterate_of_running hopen hs hrunning x f g
  rw [hconfig] at hiter
  obtain ⟨hrestarts, hend⟩ := hpoised.departs (Solver.transition_advance c s x f g)
  obtain ⟨-, honce⟩ := hpoised.heading_descends
  refine ⟨o.proceed (s.advance c x f g).1, _, s.box, p, hiter, hbox, ?_, ?_, ?_, ?_, ?_⟩
  · rw [accepted?_of_body hopen hs, Solver.accepted?_of_accepted hpoised.phase]
  · show o.restarts ≤ (s.advance c x f g).1.restarts
    omega
  · show (s.advance c x f g).1.restarts ≤ o.restarts + 1
    omega
  · intro hmany
    rcases hend with ⟨-, hstopped⟩ | ⟨hleft, -⟩
    · rw [task_proceed, Solver.task, hstopped]
      refine ⟨rfl, ?_⟩
      show (s.advance c x f g).1.status = _
      rw [Solver.status, hstopped]
      rfl
    · omega
  · intro hfew
    rcases hend with ⟨hmany, -⟩ | ⟨-, trial, hsearching, hback, hdeparts⟩
    · omega
    · rw [task_proceed, Solver.task_of_searching hsearching]
      exact ⟨rfl, _, trial, rfl, hsearching, congrArg Vector.toArray hback, hdeparts⟩

/-- An optimizer that shows an accepted point is in a line search from there after another call,
if an evaluation is left. -/
theorem exists_searching [ExactScalar α] (calls : List (Call α))
    (htask : ((start x₀ c bounds).after calls).task = .newX)
    (hleft : ((start x₀ c bounds).after calls).evaluations < c.maxEvaluations) (x : Vector α n)
    (f : α) (g : Vector α n) :
    ∃ s trial, ((start x₀ c bounds).after (calls ++ [⟨x.toArray, f, g.toArray⟩])).body = .ok s ∧
      s.phase = .searching trial ∧
      ((start x₀ c bounds).after calls).accepted? = some trial.base := by
  obtain ⟨s, -, p, hs, -, -, hpoised⟩ := exists_poised calls htask
  have hopen : ((start x₀ c bounds).after calls).closed = false := closed_after _ calls
  have hrunning : s.task.isTerminal = false := by
    rw [Solver.task_of_accepted hpoised.phase]
    rfl
  have hiter := iterate_of_running hopen hs hrunning x f g
  rw [config_after] at hiter
  obtain ⟨-, hend⟩ := hpoised.departs (Solver.transition_advance c s x f g)
  rcases hend with ⟨hspent, -⟩ | ⟨-, trial, hsearching, -, hdeparts⟩
  · rw [evaluations_of_body hs] at hleft
    exact absurd hspent (Nat.not_le.mpr hleft)
  · refine ⟨(s.advance c x f g).1, trial, ?_, hsearching, ?_⟩
    · rw [after_concat, exchange, hiter]
      rfl
    · rw [accepted?_of_body hopen hs, Solver.accepted?_of_accepted hpoised.phase,
        hdeparts.base_eq]

/-- A run waits at its first point if the gradient there is above the threshold and the budgets
are not spent. -/
theorem waits_at_first {s : Solver α n} (hbegin : begin? x₀ c bounds = .ok s) {x g : Vector α n}
    {f : α} (hx : s.box.contains x = true) (hflaw : flaw? f g = none)
    (habove : ¬ s.box.effectiveNorm x g ≤ larger c.gatol (c.grtol * s.box.effectiveNorm x g))
    (hsteps : 0 < c.maxIterations) :
    let o := (start x₀ c bounds).after [⟨x.toArray, f, g.toArray⟩]
    o.task = .newX ∧ o.evaluations = 1 ∧ o.accepted? = some ⟨x, f, g⟩ := by
  intro o
  have hopen : o.closed = false := closed_after _ _
  obtain ⟨-, -, box, -, -, rfl⟩ := begin?_eq_ok hbegin
  have hfresh : ((start x₀ c bounds).after []).evaluations = 0 := by
    rw [after_nil, evaluations_of_body hbegin]
    rfl
  let p : Point α n := ⟨x, f, g⟩
  let s := (Solver.initial c box).takeFirst c p
  have hbody : o.body = .ok { s with phase := s.settle c p } :=
    after_first hbegin [] hfresh hx hflaw
  have hphase : s.settle c p = .accepted p := by
    rw [Solver.settle]
    exact (if_neg habove).trans (if_neg (Nat.not_le.mpr hsteps))
  rw [task_of_body hbody, evaluations_of_body hbody, accepted?_of_body hopen hbody]
  exact ⟨Solver.task_of_accepted hphase, rfl, Solver.accepted?_of_accepted hphase⟩

theorem validate_default : ({} : Config ℝ).validate = .ok () := by
  have hcurvature : ({} : Config ℝ).curvatureTolerance = 0.9 := by
    simp [Config.curvatureTolerance]
  simp only [Config.validate, checkTolerance, checkDelta, checkEpsilon, checkSearchConstants,
    checkMemory, checkWindow, hcurvature, isFinite_real]
  norm_num
  rfl

/-- A run on the line begins with the default settings. -/
theorem begin?_default : begin? #v[(1 : ℝ)] {} {} = .ok (.initial {} (Box.whole 1)) := by
  rw [begin?, validate_default, checkStart_real _ one_pos, Box.ofBounds_empty]
  rfl

/-- A run whose first point has the slope one waits there. -/
theorem slope_one_waits :
    let o := (start #v[(1 : ℝ)] {} {}).after [⟨#[1], 1, #[1]⟩]
    o.task = .newX ∧ o.evaluations < 500 := by
  have hnorm : (Box.whole 1 : Box ℝ 1).effectiveNorm #v[1] #v[1] = 1 := by
    simp [Box.effectiveNorm, Box.whole, norm2, dot_eq, dotProduct, coords, sqrt]
  obtain ⟨htask, hcount, -⟩ := waits_at_first (f := 1) (g := #v[1]) begin?_default
    (Box.contains_whole _) (flaw?_real 1 _)
    (by rw [Solver.initial, hnorm, larger_tolerances rfl rfl]; norm_num) (by decide)
  exact ⟨htask, hcount.trans_lt (by decide)⟩

/-- A run whose first point has the slope one leaves it, and its next call begins a search. -/
theorem slope_one_leaves :
    let o := (start #v[(1 : ℝ)] {} {}).after [⟨#[1], 1, #[1]⟩]
    o.task = .newX ∧ o.evaluations < 500 ∧
      ∃ o' x' box p, o.iterate #[1] 1 #[1] = .ok (o', x') ∧ o.accepted? = some p ∧
        o'.task = .computeFG ∧ o'.restarts ≤ o.restarts + 1 ∧
        ∃ s' trial, o'.body = .ok s' ∧ s'.phase = .searching trial ∧
          Solver.Departs {} box p trial := by
  intro o
  obtain ⟨htask, hleft⟩ := slope_one_waits
  obtain ⟨o', x', box, q, hiter, -, hq, -, honce, -, hsearch⟩ :=
    leaves_accepted_point [⟨#[1], 1, #[1]⟩] htask #v[1] 1 #v[1]
  obtain ⟨hcompute, s', trial, hbody', hphase, -, hdeparts⟩ := hsearch hleft
  exact ⟨htask, hleft, o', x', box, q, hiter, hq, hcompute, honce, s', trial, hbody', hphase,
    hdeparts⟩

end Optimizer

end Descent
