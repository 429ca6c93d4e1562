/-
# Orthogonal gradients

The formulas for the weight of the last direction are different estimates of one number.  In exact
arithmetic they agree on it where every line search is exact and every gradient is orthogonal to
those before: all numerators are then the square of the gradient and all denominators that of the
last one, and no clipping changes the quotient.  A run over such gradients does not depend on the
formula.

* `Conjugate.numerator_eq`, `Conjugate.denominator_eq` : what the formulas divide, and by what;
* `Conjugate.next_withConjugacy` : the next direction, by any formula;
* `Conjugate.Spanned`, `Conjugate.exists_spanned` : directions for one gradient after another;
* `Solver.Orthogonal`, `Solver.Transition.orthogonal` : what a run over such gradients preserves;
* `Optimizer.after_withConjugacy` : runs by different formulas are the same;
* `Optimizer.formulas_agree` : one step, a series of gradients, and whole runs.
-/
import Mathlib
import Descent.Proofs.ConjugateDescent
import Descent.Proofs.Conversation
import Descent.Proofs.Departure
import Descent.Proofs.TrialSteps

namespace Descent

open Scalar ExactScalar StrictScalar Matrix

variable {α : Type} [Scalar α] {n : Nat}

/-- The settings with another formula for the weight of the last direction. -/
def Config.withConjugacy (c : Config α) (rule : ConjugacyRule) : Config α :=
  { c with conjugacy := rule }

namespace Conjugate

/-! ## One step -/

section Step

variable {last : Conjugate ℝ n} {g : Vector ℝ n}

/-- How far the last direction has the slope of steepest descent. -/
structure Plain (last : Conjugate ℝ n) : Prop where
  /-- The last gradient is not zero. -/
  nonzero : last.gradient ≠ zeros n
  /-- The slope of the last direction was that of steepest descent. -/
  slope : dot last.gradient last.direction = -dot last.gradient last.gradient

/-- A gradient after an exact line search, orthogonal to the last one. -/
structure Fresh (last : Conjugate ℝ n) (g : Vector ℝ n) : Prop where
  /-- It is not zero. -/
  nonzero : g ≠ zeros n
  /-- No slope is left along the last direction. -/
  exact : dot g last.direction = 0
  /-- It is orthogonal to the last gradient. -/
  orthogonal : dot g last.gradient = 0

theorem plain_steepest (hg : g ≠ zeros n) : (steepest g).Plain :=
  ⟨hg, dot_steepest g⟩

theorem Plain.square_pos (h : last.Plain) : 0 < dot last.gradient last.gradient :=
  dot_self_pos_iff.mpr h.nonzero

/-- All formulas divide the square of the new gradient. -/
theorem numerator_eq (h : last.Fresh g) (rule : ConjugacyRule) (step : ℝ) :
    last.numerator rule g step = dot g g := by
  have hchange : dot g (difference g last.gradient) = dot g g := by
    rw [dot_difference, h.orthogonal, sub_zero]
  cases rule with
  | fletcherReeves | fletcher | daiYuan => rfl
  | hestenesStiefel | polakRibierePolyak | liuStorey => exact hchange
  | perryShanno =>
    show dot g (difference g last.gradient) - step * dot g last.direction = dot g g
    rw [hchange, h.exact, mul_zero, sub_zero]
  | hagerZhang =>
    show dot g (difference g last.gradient) - 2.0 * dot _ _ * dot g last.direction / _ = dot g g
    rw [hchange, h.exact, mul_zero, zero_div, sub_zero]

/-- All formulas divide by the square of the last gradient. -/
theorem denominator_eq (hlast : last.Plain) (h : last.Fresh g) (rule : ConjugacyRule) :
    last.denominator rule g = dot last.gradient last.gradient := by
  have hslope : -dot last.direction last.gradient = dot last.gradient last.gradient := by
    rw [dot_comm, hlast.slope, neg_neg]
  have hrise : dot last.direction (difference g last.gradient) =
      dot last.gradient last.gradient := by
    rw [dot_direction_difference, h.exact, hlast.slope, zero_sub, neg_neg]
  cases rule with
  | fletcherReeves | polakRibierePolyak => rfl
  | fletcher | liuStorey => exact hslope
  | hestenesStiefel | daiYuan | perryShanno | hagerZhang => exact hrise

/-- All formulas give the same weight. -/
theorem weight_eq (hlast : last.Plain) (h : last.Fresh g) (rule : ConjugacyRule) (step : ℝ) :
    weight rule last g step = dot g g / dot last.gradient last.gradient := by
  have hpos : 0 < dot g g / dot last.gradient last.gradient :=
    div_pos (dot_self_pos_iff.mpr h.nonzero) hlast.square_pos
  rw [weight_eq_clip, quotient, numerator_eq h, denominator_eq hlast h]
  cases rule with
  | polakRibierePolyak => exact if_pos hpos
  | hagerZhang =>
    rw [clip, larger_real]
    exact max_eq_left (last.leastWeight_nonpos.trans hpos.le)
  | _ => rfl

/-- No formula divides by zero. -/
theorem regular_of_fresh (hlast : last.Plain) (h : last.Fresh g) (rule : ConjugacyRule) :
    last.Regular rule g := by
  constructor
  · rw [denominator_eq hlast h]
    exact hlast.square_pos.ne'
  · intro _
    refine ⟨?_, hlast.nonzero⟩
    intro hzero
    have hslope := hlast.slope
    have hnone : dot last.gradient (zeros n) = 0 := by simp [dot_eq, dotProduct, coords, zeros]
    rw [hzero, hnone] at hslope
    linarith [hlast.square_pos]

/-- The next direction has the slope of steepest descent again. -/
theorem Plain.extend (h : last.Fresh g) (β : ℝ) : (last.extend g β).Plain := by
  refine ⟨h.nonzero, ?_⟩
  show dot g (last.extend g β).direction = -dot g g
  rw [dot_extend, h.exact, mul_zero, add_zero]

variable [ExactScalar α] [StrictScalar α]

/-- **The next direction.**  By every formula it is the same, and no formula makes the engine
restart. -/
theorem next_withConjugacy {c : Config α} (hpowell : c.powell = false) (hlast : last.Plain)
    (h : last.Fresh g) (rule : ConjugacyRule) (step : ℝ) :
    next (c.withConjugacy rule) (some last.scalars) (ofReals g) (ofReal step) =
      ((last.extend g (dot g g / dot last.gradient last.gradient)).scalars, false) := by
  rw [← weight_eq hlast h rule step]
  exact next_scalars (c := c.withConjugacy rule) hpowell (regular_of_fresh hlast h rule) step

end Step

/-! ## One gradient after another -/

variable [ExactScalar α]

/-- A direction that is made of gradients and has the slope of steepest descent. -/
structure Spanned (gradients : List (Vector α n)) (last : Conjugate ℝ n) : Prop extends
    last.Plain where
  /-- The last gradient is one of them. -/
  mem : ofReals last.gradient ∈ gradients
  /-- Whatever is orthogonal to them is orthogonal to the direction. -/
  orthogonal (v : Vector ℝ n) :
    (∀ g ∈ gradients, dot g (ofReals v) = 0) → dot v last.direction = 0

variable {gradients more : List (Vector α n)} {last : Conjugate ℝ n} {g : Vector ℝ n}

theorem Spanned.mono (h : last.Spanned gradients) (hsubset : gradients ⊆ more) :
    last.Spanned more :=
  ⟨h.toPlain, hsubset h.mem, fun v hv => h.orthogonal v fun g hg => hv g (hsubset hg)⟩

theorem dot_eq_zero_of_ofReals {v w : Vector ℝ n}
    (h : dot (ofReals v : Vector α n) (ofReals w) = 0) : dot w v = 0 := by
  rw [dot_ofReals, ← ofReal_zero] at h
  rw [dot_comm]
  exact ofReal_injective h

/-- Steepest descent is made of its gradient. -/
theorem spanned_steepest (hg : g ≠ zeros n) (hmem : ofReals g ∈ gradients) :
    (steepest g).Spanned gradients := by
  refine ⟨plain_steepest hg, hmem, ?_⟩
  intro v hv
  show dot v (negate g) = 0
  rw [dot_negate, dot_eq_zero_of_ofReals (hv _ hmem), neg_zero]

/-- A gradient that is orthogonal to all before comes after an exact line search. -/
theorem Spanned.fresh (h : last.Spanned gradients) (hg : g ≠ zeros n)
    (horthogonal : ∀ v ∈ gradients, dot v (ofReals g) = 0) : last.Fresh g :=
  ⟨hg, h.orthogonal g horthogonal, dot_eq_zero_of_ofReals (horthogonal _ h.mem)⟩

/-- The next direction is made of the gradients so far. -/
theorem Spanned.extend (h : last.Spanned gradients) (hg : g ≠ zeros n)
    (horthogonal : ∀ v ∈ gradients, dot v (ofReals g) = 0) (β : ℝ) :
    (last.extend g β).Spanned (gradients ++ [ofReals g]) := by
  refine ⟨Plain.extend (h.fresh hg horthogonal) β, by simp [Conjugate.extend], ?_⟩
  intro v hv
  have hnew : dot v g = 0 := dot_eq_zero_of_ofReals (hv (ofReals g) (by simp))
  have hold : dot v last.direction = 0 :=
    h.orthogonal v fun w hw => hv w (List.mem_append_left _ hw)
  rw [Conjugate.extend, dot_eq, coords_combine, dotProduct_add, dotProduct_smul, dotProduct_smul,
    ← dot_eq, ← dot_eq, hnew, hold, smul_zero, smul_zero, add_zero]

variable [StrictScalar α]

/-- **One gradient after another.**  As long as no gradient is zero and each is orthogonal to all
before, the formula does not matter: the engine never restarts, and its direction has the slope of
steepest descent. -/
theorem exists_spanned {c : Config α} (hpowell : c.powell = false) {g : ℕ → Vector ℝ n}
    (steps : ℕ → ℝ) {m : ℕ} (hg : ∀ k ≤ m, g k ≠ zeros n)
    (horthogonal : ∀ j k, j < k → k ≤ m → dot (g j) (g k) = 0) :
    ∀ k ≤ m, ∃ last : Conjugate ℝ n, last.gradient = g k ∧ last.updates = k ∧
      last.Spanned ((List.range (k + 1)).map fun j => (ofReals (g j) : Vector α n)) ∧
      ∀ rule, fed (c.withConjugacy rule) (fun j => ofReals (g j)) (fun j => ofReal (steps j)) k =
        (last.scalars, false) := by
  intro k hk
  induction k with
  | zero =>
    refine ⟨steepest (g 0), rfl, rfl, spanned_steepest (hg 0 hk) (by simp), fun rule => ?_⟩
    rw [fed, next_none, steepest_scalars]
  | succ k ih =>
    obtain ⟨last, -, hupdates, hspanned, hfed⟩ := ih (by omega)
    have hearlier : ∀ v ∈ (List.range (k + 1)).map fun j => (ofReals (g j) : Vector α n),
        dot v (ofReals (g (k + 1))) = 0 := by
      intro v hv
      obtain ⟨j, hj, rfl⟩ := List.mem_map.mp hv
      have hlt : j < k + 1 := List.mem_range.mp hj
      rw [dot_ofReals, horthogonal j (k + 1) hlt hk, ofReal_zero]
    have hfresh := hspanned.fresh (hg (k + 1) hk) hearlier
    refine ⟨last.extend (g (k + 1)) (dot (g (k + 1)) (g (k + 1)) / dot last.gradient last.gradient),
      rfl, congrArg (· + 1) hupdates, ?_, fun rule => ?_⟩
    · rw [List.range_succ, List.map_append]
      exact hspanned.extend (hg (k + 1) hk) hearlier _
    · rw [fed, hfed]
      exact next_withConjugacy hpowell hspanned.toPlain hfresh rule _

end Conjugate

/-! ## Runs -/

/-- Settings that are in range bound the tolerance on decrease and the bracket. -/
theorem Config.searchConstants_of_validate [ExactScalar α] {c : Config α}
    (hvalid : c.validate = .ok ()) : 0 < c.sftol ∧ c.sftol < 1 ∧ c.sxtol < 1 := by
  obtain ⟨-, -, -, -, hsearch, -⟩ := Config.checks_of_validate hvalid
  unfold checkSearchConstants at hsearch
  split at hsearch
  · cases hsearch
  split at hsearch
  · cases hsearch
  split at hsearch
  · cases hsearch
  next hsftol hsgtol hsxtol =>
  simp only [Bool.not_eq_true', not_or, Bool.not_eq_false] at hsftol hsxtol
  obtain ⟨σ, hσ⟩ := isFinite_iff.mp hsftol.1
  obtain ⟨τ, hτ⟩ := isFinite_iff.mp hsxtol.1
  rw [hσ, ← ofReal_one, ← ofReal_zero, ofReal_le_ofReal, ofReal_le_ofReal, not_le, not_le] at hsftol
  rw [hτ, ← ofReal_one, ofReal_le_ofReal, not_le] at hsxtol
  rw [hσ, hτ, ← ofReal_one, zero_lt_ofReal, ofReal_lt_ofReal, ofReal_lt_ofReal]
  exact ⟨hsftol.2.1, hsftol.2.2, hsxtol.2.2⟩

/-- The gradients at two points are orthogonal. -/
def Point.Orthogonal (p q : Point α n) : Prop :=
  dot p.g q.g = 0

/-- A run does not wait in this phase, and its line search, if there is one, keeps to its range. -/
def Phase.Moves (phase : Phase α n) : Prop :=
  (∀ p, phase ≠ .accepted p) ∧ ∀ trial, phase = .searching trial → trial.run.InRange

/-- A run that has ended does not wait. -/
theorem moves_stopped (last : Option (Point α n)) (verdict : Verdict α) :
    (Phase.stopped last verdict).Moves := by
  constructor
  · intro p hp
    cases hp
  · intro trial htrial
    cases htrial

/-- Neither does a run in a line search. -/
theorem moves_searching {trial : Trial α n} (h : trial.run.InRange) :
    (Phase.searching trial).Moves := by
  constructor
  · intro p hp
    cases hp
  · rintro trial' ⟨⟩
    exact h

variable [ExactScalar α]

/-- The direction that conjugate gradients took last is made of the gradients at the points. -/
def Engine.Spans (points : List (Point α n)) (engine : Engine α n) : Prop :=
  ∀ e, engine = .conjugate (some e) →
    ∃ last : Conjugate ℝ n, e = last.scalars ∧ last.Spanned (points.map (·.g))

theorem Engine.Spans.mono {points more : List (Point α n)} {engine : Engine α n}
    (h : engine.Spans points) (hsubset : points ⊆ more) : engine.Spans more := by
  intro e he
  obtain ⟨last, hlast, hspanned⟩ := h e he
  exact ⟨last, hlast, hspanned.mono (List.map_subset _ hsubset)⟩

/-- A pair does not change the direction. -/
theorem Engine.Spans.learnFrom {c : Config α} {points : List (Point α n)} {engine : Engine α n}
    (h : engine.Spans points) (trial : Trial α n) (s y : Vector α n) :
    (Solver.learnFrom c engine trial s y).Spans points := by
  intro e he
  unfold Solver.learnFrom at he
  split at he
  · exact h e he
  · cases he

namespace Solver

variable {c : Config α} {points earlier : List (Point α n)} {s s' : Solver α n} {p : Point α n}
  {g : Vector ℝ n}

/-- A point where a run waits has a gradient that is not zero. -/
theorem Poised.exists_ne_zeros (h : s.Poised c p) :
    ∃ g : Vector ℝ n, p.g = ofReals g ∧ g ≠ zeros n := by
  obtain ⟨g, P, hg, -, hproduct, hnorm⟩ := s.box.exists_effectiveGradient p.x h.finite
  refine ⟨g, hg, ?_⟩
  rintro rfl
  have hpos := h.norm_pos
  rw [h.norm, hnorm, zero_lt_ofReal] at hpos
  have hzero : norm2 P * norm2 P = 0 := by
    rw [norm2_mul_self, ← hproduct]
    simp [dot_eq, dotProduct, coords, zeros]
  exact (mul_pos hpos hpos).ne' hzero

/-- Steepest descent is made of the gradient at the point. -/
theorem spans_steepest (hp : p.g = ofReals g) (hg : g ≠ zeros n) (hmem : p ∈ points) :
    (s.steepest p).1.Spans points := by
  intro e he
  unfold steepest at he
  cases hengine : s.engine with
  | conjugate last =>
    rw [hengine, hp, Conjugate.steepest_scalars] at he
    cases he
    refine ⟨_, rfl, Conjugate.spanned_steepest hg ?_⟩
    rw [← hp]
    exact List.mem_map_of_mem hmem
  | metric pairs =>
    rw [hengine] at he
    cases he

section Strict

variable [StrictScalar α]

/-- At a point whose gradient is orthogonal to those before, every formula makes conjugate
gradients propose the same, and the direction is made of the gradients so far. -/
theorem propose_withConjugacy (hpowell : c.powell = false) (hspans : s.engine.Spans earlier)
    {t : ℝ} (hstep : s.step = ofReal t) (hp : p.g = ofReals g) (hg : g ≠ zeros n)
    (horthogonal : ∀ q ∈ earlier, q.Orthogonal p) (rule : ConjugacyRule) :
    s.propose (c.withConjugacy rule) p = s.propose c p ∧
      (s.propose c p).1.Spans (earlier ++ [p]) := by
  unfold propose
  cases hengine : s.engine with
  | metric pairs =>
    refine ⟨rfl, ?_⟩
    rintro e ⟨⟩
  | conjugate last? =>
    cases last? with
    | none =>
      refine ⟨rfl, ?_⟩
      rintro e ⟨⟩
      refine ⟨Conjugate.steepest g, ?_, Conjugate.spanned_steepest hg (by simp [hp])⟩
      rw [hp, Conjugate.steepest_scalars]
    | some e =>
      obtain ⟨last, rfl, hspanned⟩ := hspans e hengine
      have hearlier : ∀ v ∈ earlier.map (·.g), dot v (ofReals g) = 0 := by
        intro v hv
        obtain ⟨q, hq, rfl⟩ := List.mem_map.mp hv
        rw [← hp]
        exact horthogonal q hq
      have hnext := Conjugate.next_withConjugacy hpowell hspanned.toPlain
        (hspanned.fresh hg hearlier)
      dsimp only
      rw [hp, hstep, hnext rule t, show c = c.withConjugacy c.conjugacy from rfl,
        hnext c.conjugacy t]
      refine ⟨rfl, ?_⟩
      rintro e ⟨⟩
      refine ⟨_, rfl, ?_⟩
      rw [List.map_append, List.map_singleton, hp]
      exact hspanned.extend hg hearlier _

/-- A run over orthogonal gradients: its steps are real numbers, and its directions are made of
the gradients at the points that it has left. -/
structure Orthogonal (c : Config α) (points : List (Point α n)) (s : Solver α n) : Prop where
  /-- The last accepted step is a real number. -/
  step : ∃ t, s.step = ofReal t
  /-- A line search keeps to its range. -/
  search : ∀ trial, s.phase = .searching trial → trial.run.InRange
  /-- All points but the one where it waits have been left. -/
  resting : ∀ p, s.phase = .accepted p →
    s.Poised c p ∧ ∃ earlier, points = earlier ++ [p] ∧ s.engine.Spans earlier
  /-- Elsewhere all have been left. -/
  moving : (∀ p, s.phase ≠ .accepted p) → s.engine.Spans points
  /-- Conjugate gradients have no bounds to respect. -/
  unbounded : s.engine.isConjugate = true → s.box.bounded = false

/-- Where a run waits, its points are those before and the one where it waits. -/
theorem Orthogonal.heading (h : s.Orthogonal c points) (hpowell : c.powell = false)
    (hpoints : points.Pairwise Point.Orthogonal) (hphase : s.phase = .accepted p)
    (rule : ConjugacyRule) :
    s.heading (c.withConjugacy rule) p = s.heading c p ∧ (s.heading c p).engine.Spans points := by
  obtain ⟨hpoised, earlier, rfl, hspans⟩ := h.resting p hphase
  obtain ⟨t, hstep⟩ := h.step
  obtain ⟨g, hp, hg⟩ := hpoised.exists_ne_zeros
  have horthogonal : ∀ q ∈ earlier, q.Orthogonal p := fun q hq =>
    (List.pairwise_append.mp hpoints).2.2 q hq p (by simp)
  obtain ⟨hpropose, hproposed⟩ := propose_withConjugacy hpowell hspans hstep hp hg horthogonal rule
  constructor
  · unfold Solver.heading
    rw [hpropose]
    rfl
  · rcases s.heading_cases c p with ⟨hengine, -⟩ | ⟨hengine, -⟩
    · rw [hengine]
      exact hproposed
    · rw [hengine]
      exact spans_steepest hp hg (by simp)

/-- So it leaves the point in the same way by every formula. -/
theorem Orthogonal.advance_withConjugacy (h : s.Orthogonal c points) (hpowell : c.powell = false)
    (hpoints : points.Pairwise Point.Orthogonal) (rule : ConjugacyRule) (x : Vector α n) (f : α)
    (g : Vector α n) : s.advance (c.withConjugacy rule) x f g = s.advance c x f g := by
  unfold advance
  cases hphase : s.phase with
  | opening => rfl
  | searching trial => rfl
  | accepted p =>
    show s.depart (c.withConjugacy rule) p = s.depart c p
    rw [depart_eq, depart_eq, (h.heading hpowell hpoints hphase rule).1]
    rfl
  | stopped last verdict => rfl

omit [StrictScalar α] in
/-- A run begins without points. -/
theorem orthogonal_initial (c : Config α) {box : Box α n}
    (hbox : (initial c box).engine.isConjugate = true → box.bounded = false) :
    (initial c box).Orthogonal c [] where
  step := ⟨0, ofReal_zero.symm⟩
  search := nofun
  resting := nofun
  moving := by
    intro _ e he
    unfold initial at he
    dsimp only at he
    split at he
    · cases he
    · cases he
  unbounded := hbox

omit [StrictScalar α] in
/-- A run that moves on from a state where it does not wait keeps its engine. -/
theorem Orthogonal.keep (h : s.Orthogonal c points) (hphase : ∀ p, s.phase ≠ .accepted p)
    (evaluations : Nat) {phase : Phase α n} (hmoves : phase.Moves) :
    ({ s with evaluations, phase } : Solver α n).Orthogonal c points where
  step := h.step
  search := hmoves.2
  resting p hp := absurd hp (hmoves.1 p)
  moving _ := h.moving hphase
  unbounded := h.unbounded

omit [StrictScalar α] in
/-- A run that arrives at a point waits there or stops. -/
theorem Orthogonal.arrive (hvalid : c.validate = .ok ()) (hstep : ∃ t, s.step = ofReal t)
    (hspans : s.engine.Spans points)
    (hunbounded : s.engine.isConjugate = true → s.box.bounded = false)
    (hfinite : p.IsFinite) (hnorm : s.norm = s.gradientNormAt p) (remark : Option StopReason) :
    ({ s with phase := heed remark (s.settle c p) } : Solver α n).Orthogonal c
      (points ++ [p]) where
  step := hstep
  search trial htrial := absurd htrial (heed_settle_ne_searching c s p remark trial)
  resting q hq := by
    rcases s.heed_settle_cases c p remark with ⟨verdict, h⟩ | ⟨h, -⟩
    · rw [show heed remark (s.settle c p) = .accepted q from hq] at h
      cases h
    · rw [show heed remark (s.settle c p) = .accepted q from hq] at h
      cases h
      have habove : ¬ s.norm ≤ s.threshold c := by
        intro hsmall
        have hstopped : s.settle c p = .stopped (some p) .converged := if_pos hsmall
        rw [hstopped] at hq
        unfold heed at hq
        split at hq
        · cases hq
        · cases hq
      exact ⟨⟨hq, hvalid, hfinite.2, hnorm, habove, hunbounded⟩, points, rfl, hspans⟩
  moving _ := hspans.mono (List.subset_append_left _ _)
  unbounded := hunbounded

/-- A run that leaves a point takes a direction made of the gradients so far. -/
theorem Orthogonal.leave (h : s.Orthogonal c points) (hpowell : c.powell = false)
    (hpoints : points.Pairwise Point.Orthogonal) (hwaits : s.phase = .accepted p)
    {phase : Phase α n} (hmoves : phase.Moves) :
    ({ s.turn (s.heading c p) with phase } : Solver α n).Orthogonal c points where
  step := h.step
  search := hmoves.2
  resting q hq := absurd hq (hmoves.1 q)
  moving _ := (h.heading hpowell hpoints hwaits c.conjugacy).2
  unbounded hkind := h.unbounded ((s.isConjugate_heading c p).symm.trans hkind)

variable {x x' : Vector α n} {f : α} {g' : Vector α n}

/-- **One transition.**  A run over orthogonal gradients is one after every transition, as long as
the gradients stay orthogonal. -/
theorem Transition.orthogonal (htrans : Transition c s x f g' s' x') (hvalid : c.validate = .ok ())
    (hpowell : c.powell = false) (h : points.Pairwise Point.Orthogonal → s.Orthogonal c points) :
    (s'.accepted? = s.accepted? ∧ s'.iterations = s.iterations ∧
        (points.Pairwise Point.Orthogonal → s'.Orthogonal c points)) ∨
      ((s.accepted? = none ∨ s.iterations < s'.iterations) ∧ s'.accepted? = some ⟨x, f, g'⟩ ∧
        ((points ++ [(⟨x, f, g'⟩ : Point α n)]).Pairwise Point.Orthogonal →
          s'.Orthogonal c (points ++ [⟨x, f, g'⟩]))) := by
  obtain ⟨hsftol, hless, hsxtol⟩ := Config.searchConstants_of_validate hvalid
  have hearlier (hpoints : (points ++ [(⟨x, f, g'⟩ : Point α n)]).Pairwise Point.Orthogonal) :
      s.Orthogonal c points := h (List.pairwise_append.mp hpoints).1
  have hopening (hs : s.phase = .opening) (p : Point α n) : s.phase ≠ .accepted p := by
    intro hp
    rw [hs] at hp
    cases hp
  have hsearching {trial : Trial α n} (hs : s.phase = .searching trial) (p : Point α n) :
      s.phase ≠ .accepted p := by
    intro hp
    rw [hs] at hp
    cases hp
  have hkind := htrans.isConjugate_eq
  cases htrans with
  | project hs hx => exact .inl ⟨rfl, rfl, h⟩
  | flawAtFirst flaw hs hx hflaw =>
    left
    exact ⟨(accepted?_of_opening hs).symm, rfl, fun hpoints =>
      (h hpoints).keep (hopening hs) _ (moves_stopped _ _)⟩
  | first hs hx hflaw =>
    right
    refine ⟨.inl (accepted?_of_opening hs), accepted?_settle c _ _, fun hpoints => ?_⟩
    have hs' := hearlier hpoints
    exact Orthogonal.arrive (s := s.takeFirst c ⟨x, f, g'⟩) hvalid hs'.step
      (hs'.moving (hopening hs)) hs'.unbounded
      ⟨isFinite_value_of_flaw? hflaw, isFinite_gradient_of_flaw? hflaw⟩ rfl none
  | flawAtTrial trial flaw hs hflaw =>
    left
    exact ⟨(accepted?_of_searching hs).symm, rfl, fun hpoints =>
      (h hpoints).keep (hsearching hs) _ (moves_stopped _ _)⟩
  | spentAtTrial trial run hs hflaw hanswer hspent =>
    left
    exact ⟨(accepted?_of_searching hs).symm, rfl, fun hpoints =>
      (h hpoints).keep (hsearching hs) _ (moves_stopped _ _)⟩
  | retry trial run hs hflaw hanswer hleft =>
    left
    exact ⟨(accepted?_of_searching hs).symm, rfl, fun hpoints =>
      (h hpoints).keep (hsearching hs) _ (moves_searching
        (((h hpoints).search trial hs).next hsftol hless hsxtol hanswer))⟩
  | step trial remark hs hflaw hanswer =>
    right
    refine ⟨.inr (Nat.lt_succ_self _), ?_, fun hpoints => ?_⟩
    · rw [accepted?, accepted?_heed, accepted?_settle]
    · have hs' := hearlier hpoints
      obtain ⟨-, t, -, ht, -⟩ := le_iff.mp (hs'.search trial hs).step.1
      exact Orthogonal.arrive (s := s.takeStep c trial ⟨x, f, g'⟩) hvalid ⟨t, ht⟩
        ((hs'.moving (hsearching hs)).learnFrom _ _ _)
        (fun h => hs'.unbounded (hkind.symm.trans h))
        ⟨isFinite_value_of_flaw? hflaw, isFinite_gradient_of_flaw? hflaw⟩ rfl remark
  | searchFailed trial step reason hs hflaw hanswer =>
    left
    exact ⟨(accepted?_of_searching hs).symm, rfl, fun hpoints =>
      (h hpoints).keep (hsearching hs) _ (moves_stopped _ _)⟩
  | notDescent p hs hslope =>
    left
    exact ⟨(accepted?_of_accepted hs).symm, rfl, fun hpoints =>
      (h hpoints).leave hpowell hpoints hs (moves_stopped _ _)⟩
  | spentAtPoint p hs hslope hspent =>
    left
    exact ⟨(accepted?_of_accepted hs).symm, rfl, fun hpoints =>
      (h hpoints).leave hpowell hpoints hs (moves_stopped _ _)⟩
  | refused p range refusal hs hslope hleft hrange hstart =>
    left
    exact ⟨(accepted?_of_accepted hs).symm, rfl, fun hpoints =>
      (h hpoints).leave hpowell hpoints hs (moves_stopped _ _)⟩
  | search p range run hs hslope hleft hrange hstart =>
    left
    exact ⟨(accepted?_of_accepted hs).symm, rfl, fun hpoints =>
      (h hpoints).leave hpowell hpoints hs (moves_searching (Run.inRange_start hstart).1)⟩
  | idle last verdict hs => exact .inl ⟨rfl, rfl, h⟩

end Strict

end Solver

namespace Optimizer

variable {x₀ : Vector α n} {c : Config α} {bounds : Bounds α}

omit [ExactScalar α] in
theorem start_withConjugacy (rule : ConjugacyRule) :
    start x₀ (c.withConjugacy rule) bounds =
      (start x₀ c bounds).mapConfig (·.withConjugacy rule) :=
  rfl

omit [ExactScalar α] in
/-- What fails a run does not depend on the formula. -/
theorem failure?_mapConfig_withConjugacy (o : Optimizer α n) (rule : ConjugacyRule) :
    (o.mapConfig (·.withConjugacy rule)).failure? = o.failure? := by
  unfold failure? mapConfig
  cases o.body with
  | ok s => rfl
  | error e => rfl

variable [StrictScalar α]

/-- A run whose accepted gradients are orthogonal is one over orthogonal gradients. -/
theorem orthogonal_after (hpowell : c.powell = false) (calls : List (Call α))
    (hpoints : ((start x₀ c bounds).acceptedPoints calls).Pairwise Point.Orthogonal)
    {s : Solver α n} (hs : ((start x₀ c bounds).after calls).body = .ok s) :
    s.Orthogonal c ((start x₀ c bounds).acceptedPoints calls) := by
  cases hbegin : (start x₀ c bounds).body with
  | error e =>
    rw [after_of_error hbegin, hbegin] at hs
    cases hs
  | ok s₀ =>
    obtain ⟨hvalid, -, box, -, -, rfl⟩ := begin?_eq_ok hbegin
    have hinit := Solver.orthogonal_initial c (unbounded_of_begin? hbegin)
    obtain ⟨s', hs', horthogonal⟩ := invariant_acceptedPoints
      (P := fun points s => points.Pairwise Point.Orthogonal → s.Orthogonal c points) rfl hbegin
      (fun _ => hinit) (fun points s x f g s' x' htrans => htrans.orthogonal hvalid hpowell) calls
    rw [hs] at hs'
    cases hs'
    exact horthogonal hpoints

/-- As long as the accepted gradients are orthogonal, runs by different formulas are the same. -/
theorem after_withConjugacy (hpowell : c.powell = false) (calls : List (Call α))
    (hpoints : ((start x₀ c bounds).acceptedPoints calls).Pairwise Point.Orthogonal)
    (rule : ConjugacyRule) :
    (start x₀ (c.withConjugacy rule) bounds).after calls =
      ((start x₀ c bounds).after calls).mapConfig (·.withConjugacy rule) := by
  induction calls using List.reverseRecOn with
  | nil => exact start_withConjugacy rule
  | append_singleton calls call ih =>
    rw [acceptedPoints_append] at hpoints
    have hearlier := (List.pairwise_append.mp hpoints).1
    rw [after_concat, after_concat, ih hearlier, exchange_mapConfig]
    intro s hs x f g
    rw [config_after]
    exact (orthogonal_after hpowell calls hearlier hs).advance_withConjugacy hpowell hearlier rule
      x f g

/-- **The formulas agree.**  In exact arithmetic and without restarts of Powell's kind, all formulas
for the weight of the last direction are the same where line searches are exact and gradients
orthogonal:

* after a direction with the slope of steepest descent, at a gradient that is orthogonal to the
  direction and to the last gradient, none of them makes the engine restart, and all give the
  direction `-g + (g·g / g₀·g₀) d`, which again has the slope of steepest descent;
* so it goes on for a series of gradients each of which is orthogonal to all before;
* a run of an optimizer does not depend on the formula, as long as the gradients at its accepted
  points are orthogonal to each other. -/
theorem formulas_agree (c : Config α) (hpowell : c.powell = false) :
    (∀ (last : Conjugate ℝ n) (g : Vector ℝ n) (step : ℝ), last.gradient ≠ zeros n →
      dot last.gradient last.direction = -dot last.gradient last.gradient →
      g ≠ zeros n → dot g last.direction = 0 → dot g last.gradient = 0 →
      let d := combine (-1) g (dot g g / dot last.gradient last.gradient) last.direction
      dot g d = -dot g g ∧ ∀ rule,
        Conjugate.next (c.withConjugacy rule) (some last.scalars) (ofReals g) (ofReal step) =
          (⟨ofReals g, ofReals d, last.updates + 1⟩, false)) ∧
    (∀ (g : ℕ → Vector ℝ n) (steps : ℕ → ℝ) (m : ℕ), (∀ k ≤ m, g k ≠ zeros n) →
      (∀ j k, j < k → k ≤ m → dot (g j) (g k) = 0) →
      ∀ k ≤ m, ∃ d : Vector ℝ n, dot (g k) d = -dot (g k) (g k) ∧ ∀ rule,
        Conjugate.fed (c.withConjugacy rule) (fun j => ofReals (g j)) (fun j => ofReal (steps j))
          k = (⟨ofReals (g k), ofReals d, k⟩, false)) ∧
    ∀ (x₀ : Vector α n) (bounds : Bounds α) (calls : List (Call α)) (rule : ConjugacyRule),
      ((start x₀ c bounds).acceptedPoints calls).Pairwise (fun p q => dot p.g q.g = 0) →
      let o := (start x₀ c bounds).after calls
      let o' := (start x₀ (c.withConjugacy rule) bounds).after calls
      o'.body = o.body ∧ o'.readings = o.readings ∧ o'.accepted? = o.accepted? ∧
        o'.failure? = o.failure? ∧ ∀ x f g,
          (o'.iterate x f g).map (fun next => (next.1.body, next.2)) =
            (o.iterate x f g).map (fun next => (next.1.body, next.2)) := by
  refine ⟨?_, ?_, ?_⟩
  · intro last g step hlast hslope hg hexact horthogonal d
    have hplain : last.Plain := ⟨hlast, hslope⟩
    have hfresh : last.Fresh g := ⟨hg, hexact, horthogonal⟩
    exact ⟨(Conjugate.Plain.extend hfresh _).slope,
      fun rule => Conjugate.next_withConjugacy hpowell hplain hfresh rule step⟩
  · intro g steps m hg horthogonal k hk
    obtain ⟨last, hgradient, hupdates, hspanned, hfed⟩ :=
      Conjugate.exists_spanned hpowell steps hg horthogonal k hk
    have hslope := hspanned.slope
    rw [hgradient] at hslope
    refine ⟨last.direction, hslope, fun rule => ?_⟩
    rw [hfed rule, Conjugate.scalars, hgradient, hupdates]
  · intro x₀ bounds calls rule hpoints o o'
    have hsame : o' = o.mapConfig (·.withConjugacy rule) :=
      after_withConjugacy hpowell calls hpoints rule
    have hbody : o'.body = o.body := by rw [hsame]; rfl
    have hclosed : o'.closed = o.closed := by rw [hsame]; rfl
    refine ⟨hbody, readings_congr hclosed hbody, accepted?_congr hclosed hbody, ?_, ?_⟩
    · rw [hsame, failure?_mapConfig_withConjugacy]
    · intro x f g
      have hnext : ∀ s, o.body = .ok s → ∀ x f g,
          s.advance (o.config.withConjugacy rule) x f g = s.advance o.config x f g := by
        intro s hs x f g
        rw [config_after]
        exact (orthogonal_after hpowell calls hpoints hs).advance_withConjugacy hpowell hpoints rule
          x f g
      rw [hsame, iterate_mapConfig hnext]
      cases o.iterate x f g with
      | ok next => rfl
      | error e => rfl

/-- Conjugate gradients with the search that halves its step. -/
noncomputable def planar : Config ℝ where
  algorithm := .conjugateGradient
  lineSearch := .armijo

/-- A point in the plane where the gradient is along the first axis. -/
noncomputable def eastern : Point ℝ 2 :=
  ⟨#v[0, 0], 0, #v[1, 0]⟩

/-- A point in the plane where the gradient is along the second axis. -/
noncomputable def northern (f : ℝ) : Point ℝ 2 :=
  ⟨#v[0, 0], f, #v[0, 1]⟩

/-- A run in the plane begins. -/
theorem begin?_plane : begin? #v[(0 : ℝ), 0] planar {} = .ok (.initial planar (Box.whole 2)) := by
  have hvalid : planar.validate = .ok () := by
    have hcurvature : planar.curvatureTolerance = 0.9 := by
      simp [Config.curvatureTolerance, planar]
    simp only [Config.validate, checkTolerance, checkDelta, checkEpsilon, checkSearchConstants,
      checkMemory, checkWindow, hcurvature, isFinite_real]
    norm_num [planar]
    rfl
  rw [begin?, hvalid, checkStart_real _ two_pos, Box.ofBounds_empty]
  rfl

/-- A point whose gradient has length one does not end a run in the plane. -/
theorem settle_plane {s : Solver ℝ 2} {p : Point ℝ 2} (hnorm : s.norm = 1)
    (hleft : s.iterations < 500) : s.settle planar p = .accepted p :=
  Solver.settle_of_lt rfl rfl (by rw [hnorm]; norm_num) hleft

/-- The run in the plane where it waits at its first point. -/
noncomputable def planarWaiting : Solver ℝ 2 :=
  { (Solver.initial planar (Box.whole 2)).takeFirst planar eastern with phase := .accepted eastern }

/-- After its first point the run in the plane waits. -/
theorem body_plane_first :
    ((start #v[0, 0] planar {}).after [eastern.call]).body = .ok planarWaiting := by
  have hnorm : ((Solver.initial planar (Box.whole 2)).takeFirst planar eastern).norm = 1 := by
    show √(dot eastern.g eastern.g) = 1
    norm_num [eastern, dot_eq, dotProduct, coords, Fin.sum_univ_two]
  have hfresh : ((start #v[(0 : ℝ), 0] planar {}).after []).evaluations = 0 := by
    rw [after_nil, evaluations_of_body begin?_plane]
    rfl
  have hbody := after_first begin?_plane [] hfresh (Box.contains_whole eastern.x)
    (flaw?_real eastern.f eastern.g)
  rw [settle_plane hnorm (by decide)] at hbody
  exact hbody

/-- After a report of that point it searches. -/
theorem exists_plane_search :
    ∃ s trial, ((start #v[0, 0] planar {}).after [eastern.call, eastern.call]).body = .ok s ∧
      s.phase = .searching trial ∧ s.box = Box.whole 2 ∧ s.iterations = 0 ∧
      s.accepted? = some eastern := by
  have htask := task_of_body body_plane_first
  obtain ⟨s, -, p, hs, -, -, hpoised⟩ := exists_poised [eastern.call] htask
  rw [body_plane_first] at hs
  cases hs
  have htrans := Solver.transition_advance planar planarWaiting eastern.x eastern.f eastern.g
  obtain ⟨-, ⟨hspent, -⟩ | ⟨-, trial, hphase, -, -⟩⟩ := hpoised.departs htrans
  · exact absurd hspent (by decide)
  · obtain ⟨haccepted, hcount⟩ | ⟨htakes, -⟩ := htrans.accepted?_cases
    · exact ⟨_, trial, body_after_call rfl [eastern.call] body_plane_first rfl eastern, hphase,
        htrans.box_eq, hcount, haccepted⟩
    · cases htakes.task_eq

/-- Where the value has fallen enough, the search ends at a point whose gradient is orthogonal to
the first one, and the run waits there. -/
theorem exists_plane_turn :
    ∃ f, let o := start #v[0, 0] planar {}
      let calls := [eastern.call, eastern.call, (northern f).call]
      (o.after calls).task = .newX ∧ o.acceptedPoints calls = [eastern, northern f] := by
  obtain ⟨s, trial, hbody, hphase, hbox, hcount, haccepted⟩ := exists_plane_search
  let p := northern (trial.run.reference + planar.sftol * trial.run.step * trial.run.frame.slope)
  let s' := s.takeStep planar trial p
  have hanswer : trial.run.answer planar p.f
      (Solver.trialSlope trial.base p.x p.g trial.run.step) = .accepted none :=
    (Run.backtrack_eq_accepted_iff planar trial.run p.f none).mpr ⟨rfl, decide_eq_true le_rfl⟩
  have hsettle : s'.settle planar p = .accepted p := by
    refine settle_plane ?_ ?_
    · show s.box.effectiveNorm p.x p.g = 1
      rw [hbox]
      show √(dot p.g p.g) = 1
      norm_num [p, northern, dot_eq, dotProduct, coords, Fin.sum_univ_two]
    · show s.iterations + 1 < 500
      rw [hcount]
      decide
  have hadvance : (s.advance planar p.x p.f p.g).1 = { s' with phase := .accepted p } := by
    rw [Solver.advance_of_accepted hphase (flaw?_real _ _) hanswer]
    show { s' with phase := Solver.heed none (s'.settle planar p) } = _
    rw [hsettle]
    rfl
  have hrunning : s.task.isTerminal = false := by
    rw [Solver.task_of_searching hphase]
    rfl
  refine ⟨p.f, ?_⟩
  intro o calls
  have hopen (calls : List (Call ℝ)) : (o.after calls).closed = false := closed_after o calls
  have hlast : (o.after calls).body = .ok { s' with phase := .accepted p } := by
    rw [← hadvance]
    exact body_after_call rfl [eastern.call, eastern.call] hbody hrunning p
  have hfirst : o.newlyAccepted? (o.after [eastern.call]) = some eastern :=
    newlyAccepted?_eq_some (.inl (accepted?_start _ _ _))
      (accepted?_of_body (hopen _) body_plane_first)
  have hsecond : (o.after [eastern.call]).newlyAccepted?
      (o.after [eastern.call, eastern.call]) = none := by
    refine newlyAccepted?_eq_none ?_ ?_
    · rw [accepted?_of_body (hopen _) hbody, haccepted,
        accepted?_of_body (hopen _) body_plane_first]
      rfl
    · rw [iterations_of_body hbody, hcount, iterations_of_body body_plane_first]
      rfl
  have hthird : (o.after [eastern.call, eastern.call]).newlyAccepted? (o.after calls) =
      some p := by
    refine newlyAccepted?_eq_some (.inr ?_) (accepted?_of_body (hopen _) hlast)
    rw [iterations_of_body hbody, iterations_of_body hlast]
    exact Nat.lt_succ_self _
  refine ⟨task_of_body hlast, ?_⟩
  show (o.newlyAccepted? (o.after [eastern.call])).toList ++
    (((o.after [eastern.call]).newlyAccepted? (o.after [eastern.call, eastern.call])).toList ++
      (((o.after [eastern.call, eastern.call]).newlyAccepted? (o.after calls)).toList ++ [])) = _
  rw [hfirst, hsecond, hthird]
  rfl

/-- From the first axis to the second: one step, and a run whose two accepted gradients are along
the axes. -/
theorem axes_agree :
    (∀ rule, Conjugate.next (planar.withConjugacy rule) (some ⟨#v[1, 0], #v[-1, 0], 0⟩) #v[0, 1] 1 =
      (⟨#v[0, 1], #v[-1, -1], 1⟩, false)) ∧
    ∃ f, let calls := [eastern.call, eastern.call, (northern f).call]
      ((start #v[0, 0] planar {}).after calls).task = .newX ∧
        (start #v[0, 0] planar {}).acceptedPoints calls = [eastern, northern f] ∧
        ∀ rule, ((start #v[0, 0] (planar.withConjugacy rule) {}).after calls).body =
          ((start #v[0, 0] planar {}).after calls).body := by
  obtain ⟨hstep, -, hruns⟩ := formulas_agree (α := ℝ) (n := 2) planar rfl
  have heast : dot (#v[1, 0] : Vector ℝ 2) #v[1, 0] = 1 := by
    norm_num [dot_eq, dotProduct, coords, Fin.sum_univ_two]
  have hnorth : dot (#v[0, 1] : Vector ℝ 2) #v[0, 1] = 1 := by
    norm_num [dot_eq, dotProduct, coords, Fin.sum_univ_two]
  constructor
  · obtain ⟨-, hnext⟩ := hstep ⟨#v[1, 0], #v[-1, 0], 0⟩ #v[0, 1] 1
      (dot_self_pos_iff.mp (one_pos.trans_eq heast.symm))
      (by norm_num [dot_eq, dotProduct, coords, Fin.sum_univ_two])
      (dot_self_pos_iff.mp (one_pos.trans_eq hnorth.symm))
      (by norm_num [dot_eq, dotProduct, coords, Fin.sum_univ_two])
      (by norm_num [dot_eq, dotProduct, coords, Fin.sum_univ_two])
    have hdirection : combine (-1) (#v[0, 1] : Vector ℝ 2) 1 #v[-1, 0] = #v[-1, -1] := by
      norm_num [combine, Vector.zipWith]
    simp only [Conjugate.scalars, ofReals_real, heast, hnorth, div_one, hdirection] at hnext
    exact hnext
  · obtain ⟨f, htask, hpoints⟩ := exists_plane_turn
    refine ⟨f, htask, hpoints, fun rule => (hruns _ _ _ rule ?_).1⟩
    rw [hpoints, List.pairwise_pair]
    norm_num [eastern, northern, dot_eq, dotProduct, coords, Fin.sum_univ_two]

end Optimizer

end Descent
