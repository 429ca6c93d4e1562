/-
# Without bounds

The variants of the variable metric differ in how they deal with bounds.  Without bounds
and in exact arithmetic, nothing is blocked and the order of a sum does not matter, so
that they are one optimizer.

* `Box.free_whole`, `maskedDot_everything`, … : masks that select everything;
* `applyInverse_everything` : the metric confined to all components is the metric;
* `metricDirection_whole` : the variants propose the same direction;
* `Solver.Unbounded` : what a run without bounds has;
* `Solver.Unbounded.advance_withMetric` : it goes on in the same way;
* `Optimizer.variants_agree_unbounded` : the optimizers agree.
-/
import Descent.Proofs.Conversation
import Descent.Proofs.CurvatureMemory
import Descent.Proofs.Departure
import Descent.Proofs.Symmetry.Conversations

namespace Descent

open Scalar ExactScalar

variable {α : Type} [Scalar α] {n : Nat}

/-! ## Masks that select everything -/

/-- The mask that selects all components. -/
def everything (n : Nat) : Vector Bool n :=
  Vector.replicate n true

theorem maskedAxpy_everything (a : α) (x y : Vector α n) :
    maskedAxpy (everything n) a x y = axpy a x y := by
  ext i hi
  rw [getElem_maskedAxpy, getElem_axpy, everything, Vector.getElem_replicate, if_pos rfl]

/-- A sum over all components takes up all terms. -/
theorem foldl_everything (terms : List α) (first : α) :
    ((List.replicate terms.length true).zip terms).foldl
        (fun total term => if term.1 then total + term.2 else total) first =
      terms.foldl (· + ·) first := by
  induction terms generalizing first with
  | nil => rfl
  | cons term terms ih => exact ih (first + term)

section Exact

variable [ExactScalar α]

/-- Without ends no value is blocked. -/
theorem Interval.blocks_free (x g : α) : ({} : Interval α).blocks x g = false := by
  -- a value that is not finite compares with nothing
  have hnumber (h : x < 0 ∨ 0 < x) : isFinite x = true := by
    rcases h with h | h
    · obtain ⟨y, -, rfl, -⟩ := lt_iff.mp h
      exact isFinite_ofReal y
    · obtain ⟨-, y, -, rfl, -⟩ := lt_iff.mp h
      exact isFinite_ofReal y
  by_cases h : x < 0 ∨ 0 < x
  · exact Interval.blocks_unbounded (hnumber h) g
  · rw [not_or] at h
    simp [Interval.blocks, Interval.atLower, Interval.atUpper, h.1, h.2]

theorem Box.free_whole (x g : Vector α n) : (Box.whole n).free x g = everything n := by
  ext i hi
  rw [Box.getElem_free, everything, Vector.getElem_replicate, Box.whole, Vector.getElem_replicate,
    Interval.blocks_free, Bool.not_false]

variable [StrictScalar α]

/-- An inner product over all components is the inner product. -/
theorem maskedDot_everything (x y : Vector α n) : maskedDot (everything n) x y = dot x y := by
  have hlength : (everything n).toList =
      List.replicate (Vector.zipWith (· * ·) x y).toList.length true := by
    simp [everything]
  rw [maskedDot, hlength, foldl_everything, dot, sumLanes_eq_foldl]
  simp only [StrictScalar.zero_add]

theorem restrict_everything (g : Vector α n) : restrict (everything n) g = g := by
  ext i hi
  simp [restrict, everything, indicator, StrictScalar.mul_one]

/-! ## The metric on all components -/

theorem CurvaturePair.Valid.inverseCurvature_everything {p : CurvaturePair α n} (h : p.Valid) :
    p.inverseCurvature (.only (everything n)) = p.inverseCurvature .whole := by
  rw [inverseCurvature, inverseCurvature, maskedDot_everything, if_pos h.pos, h.inverse]

theorem CurvaturePair.Valid.inverseSize_everything {p : CurvaturePair α n} (h : p.Valid) :
    p.inverseSize (.only (everything n)) = p.inverseSize .whole := by
  rw [inverseSize, inverseSize, h.inverseCurvature_everything, Support.inner, Support.inner,
    maskedDot_everything]

/-- The metric confined to all components is the metric. -/
theorem applyInverse_everything {pairs : List (CurvaturePair α n)} (h : ∀ p ∈ pairs, p.Valid)
    (γ : α) (v : Vector α n) :
    applyInverse (.only (everything n)) pairs γ v = applyInverse .whole pairs γ v := by
  induction pairs generalizing γ v with
  | nil => rfl
  | cons p older ih =>
    have hp := h p (List.mem_cons_self ..)
    have holder := ih fun q hq => h q (List.mem_cons_of_mem p hq)
    simp only [applyInverse, hp.inverseCurvature_everything, hp.inverseSize_everything, holder,
      Support.inner, Support.add, maskedDot_everything, maskedAxpy_everything]

/-- The settings with another variant of the variable metric. -/
def Config.withMetric (c : Config α) (variant : MetricVariant) : Config α :=
  { c with metric := variant }

/-- Without bounds every variant proposes the direction of the metric itself. -/
theorem metricDirection_whole (c : Config α) {pairs : List (CurvaturePair α n)}
    (h : ∀ p ∈ pairs, p.Valid) (x g : Vector α n) :
    metricDirection c (Box.whole n) pairs x g ((Box.whole n).effectiveGradient x g) =
      scale (-1) (applyInverse .whole pairs 0 g) := by
  unfold metricDirection
  cases c.metric with
  | lbfgs => rfl
  | blmvm => rfl
  | vmlmb =>
    dsimp only
    rw [Box.free_whole, restrict_everything, applyInverse_everything h]
    rfl

end Exact

/-! ## Runs -/

namespace Solver

/-- What a run without bounds has: the whole space, and only valid pairs. -/
structure Unbounded (s : Solver α n) : Prop where
  /-- There is no bound. -/
  box_eq : s.box = Box.whole n
  /-- The pairs that the variable metric keeps are valid. -/
  valid : ∀ pairs, s.engine = .metric pairs → ∀ p ∈ pairs, p.Valid

variable {c : Config α} {s s' : Solver α n} {x x' g : Vector α n} {f : α}

/-- The pairs stay valid where an accepted step is learned from. -/
theorem Unbounded.valid_learnFrom (h : s.Unbounded) (trial : Trial α n) (d y : Vector α n)
    (pairs : List (CurvaturePair α n)) (hpairs : learnFrom c s.engine trial d y = .metric pairs) :
    ∀ p ∈ pairs, p.Valid := by
  unfold learnFrom at hpairs
  cases hengine : s.engine with
  | conjugate last =>
    rw [hengine] at hpairs
    cases hpairs
  | metric kept =>
    rw [hengine] at hpairs
    cases hpairs
    split
    · exact h.valid kept hengine
    · intro p hp
      exact valid_of_mem_learn (h.valid kept hengine) hp

/-- They stay valid where a heading is chosen. -/
theorem Unbounded.valid_heading (h : s.Unbounded) (p : Point α n)
    (pairs : List (CurvaturePair α n)) (hpairs : (s.heading c p).engine = .metric pairs) :
    ∀ q ∈ pairs, q.Valid := by
  cases hengine : s.engine with
  | conjugate last =>
    have hkind := s.isConjugate_heading c p
    rw [hpairs, hengine] at hkind
    cases hkind
  | metric kept =>
    rcases s.heading_metric_cases (c := c) p hengine with ⟨hkept, -⟩ | ⟨hempty, -⟩
    · rw [hkept] at hpairs
      cases hpairs
      exact h.valid pairs hengine
    · rw [hempty] at hpairs
      cases hpairs
      intro q hq
      cases hq

/-- Every transition keeps a run without bounds. -/
theorem Transition.unbounded (h : Transition c s x f g s' x') (hs : s.Unbounded) :
    s'.Unbounded where
  box_eq := h.box_eq.trans hs.box_eq
  valid := by
    cases h with
    | step trial remark hphase hflaw hanswer => exact hs.valid_learnFrom trial _ _
    | notDescent p hphase hslope => exact hs.valid_heading p
    | spentAtPoint p hphase hslope hspent => exact hs.valid_heading p
    | refused p range refusal hphase hslope hmore hrange hstart => exact hs.valid_heading p
    | search p range run hphase hslope hmore hrange hstart => exact hs.valid_heading p
    | _ => exact hs.valid

variable [ExactScalar α] [StrictScalar α]

/-- Whatever the variant, the same direction is proposed. -/
theorem Unbounded.propose_withMetric (h : s.Unbounded) (c : Config α) (variant : MetricVariant)
    (p : Point α n) : s.propose (c.withMetric variant) p = s.propose c p := by
  unfold propose
  cases hengine : s.engine with
  | conjugate last => rfl
  | metric pairs =>
    dsimp only
    rw [h.box_eq, metricDirection_whole _ (h.valid pairs hengine),
      metricDirection_whole _ (h.valid pairs hengine)]

/-- So the same heading is chosen. -/
theorem Unbounded.heading_withMetric (h : s.Unbounded) (c : Config α) (variant : MetricVariant)
    (p : Point α n) : s.heading (c.withMetric variant) p = s.heading c p := by
  unfold heading
  rw [h.propose_withMetric c variant p]
  rfl

/-- So the run leaves an accepted point in the same way. -/
theorem Unbounded.depart_withMetric (h : s.Unbounded) (c : Config α) (variant : MetricVariant)
    (p : Point α n) : s.depart (c.withMetric variant) p = s.depart c p := by
  rw [depart_eq, depart_eq, h.heading_withMetric c variant p]
  rfl

/-- **One run.**  Whatever the variant, the run goes on in the same way. -/
theorem Unbounded.advance_withMetric (h : s.Unbounded) (c : Config α) (variant : MetricVariant)
    (x : Vector α n) (f : α) (g : Vector α n) :
    s.advance (c.withMetric variant) x f g = s.advance c x f g := by
  unfold advance
  cases s.phase with
  | opening => rfl
  | searching trial => rfl
  | accepted p => exact h.depart_withMetric c variant p
  | stopped last verdict => rfl

end Solver

/-! ## Optimizers -/

namespace Optimizer

/-- The optimizer with another variant of the variable metric. -/
def withMetric (o : Optimizer α n) (variant : MetricVariant) : Optimizer α n :=
  { o with config := o.config.withMetric variant }

/-- Without bounds a run begins in the same way. -/
theorem start_withMetric (x₀ : Vector α n) (c : Config α) (variant : MetricVariant) :
    start x₀ (c.withMetric variant) {} = (start x₀ c {}).withMetric variant := by
  have hbegin : begin? x₀ (c.withMetric variant) {} = begin? x₀ c {} := by
    unfold begin?
    rw [Box.ofBounds_empty]
    rfl
  rw [start, hbegin]
  rfl

/-- A run without bounds has no bounds after any calls. -/
theorem Reachable.unbounded {x₀ : Vector α n} {c : Config α} {o : Optimizer α n}
    (h : Reachable x₀ c {} o) {s : Solver α n} (hs : o.body = .ok s) : s.Unbounded := by
  refine h.invariant ?_ ?_ hs
  · intro s hbegin
    obtain ⟨-, -, box, hbox, -, rfl⟩ := begin?_eq_ok hbegin
    rw [Box.ofBounds_empty] at hbox
    cases hbox
    refine ⟨rfl, ?_⟩
    intro pairs hpairs p hp
    unfold Solver.initial at hpairs
    dsimp only at hpairs
    split at hpairs
    · cases hpairs
    · cases hpairs
      cases hp
  · intro s x f g s' x' htrans
    exact htrans.unbounded

theorem unbounded_converse (x₀ : Vector α n) (c : Config α) (caller : Nat → Array α → Call α)
    (x : Array α) (k : Nat) {s : Solver α n}
    (hs : ((start x₀ c {}).converse caller x k).1.body = .ok s) : s.Unbounded := by
  rw [← after_callsOf] at hs
  exact (reachable_after x₀ c {} _).unbounded hs

variable [ExactScalar α] [StrictScalar α]

/-- Whatever the variant, a call has the same result. -/
theorem iterate_withMetric {o : Optimizer α n} (h : ∀ s, o.body = .ok s → s.Unbounded)
    (variant : MetricVariant) (x : Array α) (f : α) (g : Array α) :
    (o.withMetric variant).iterate x f g =
      (o.iterate x f g).map fun next => (next.1.withMetric variant, next.2) := by
  show (o.mapConfig (·.withMetric variant)).iterate x f g = _
  exact iterate_mapConfig (fun s hs => (h s hs).advance_withMetric o.config variant) x f g

/-- So it leaves optimizers that differ in their variant only, and the same point. -/
theorem exchange_withMetric {o : Optimizer α n} (h : ∀ s, o.body = .ok s → s.Unbounded)
    (variant : MetricVariant) (call : Call α) :
    (o.withMetric variant).exchange call =
      ((o.exchange call).1.withMetric variant, (o.exchange call).2) := by
  show (o.mapConfig (·.withMetric variant)).exchange call = _
  exact exchange_mapConfig (fun s hs => (h s hs).advance_withMetric o.config variant) call

/-- **Conversations.**  Without bounds, after any number of calls the optimizers differ in their
variant only, and the same point has been handed back. -/
theorem converse_withMetric (x₀ : Vector α n) (c : Config α) (variant : MetricVariant)
    (caller : Nat → Array α → Call α) (x : Array α) (k : Nat) :
    ((start x₀ c {}).withMetric variant).converse caller x k =
      (((start x₀ c {}).converse caller x k).1.withMetric variant,
        ((start x₀ c {}).converse caller x k).2) := by
  induction k with
  | zero => rfl
  | succ k ih =>
    rw [converse, ih]
    exact exchange_withMetric (fun s => unbounded_converse x₀ c caller x k) variant _

/-- **Variants agree.**  In exact arithmetic and without bounds, every variant of the variable
metric hands back the same points, answers everything in the same way, accepts the same points
and remembers the same steps, after any number of calls; and the next call has the same result,
be it an error or not. -/
theorem variants_agree_unbounded (x₀ : Vector α n) (c : Config α) (variant : MetricVariant)
    (caller : Nat → Array α → Call α) (k : Nat) :
    let now := (start x₀ c {}).converse caller x₀.toArray k
    let other := (start x₀ { c with metric := variant } {}).converse caller x₀.toArray k
    other.2 = now.2 ∧ other.1.readings = now.1.readings ∧
      other.1.accepted? = now.1.accepted? ∧ other.1.body = now.1.body ∧
      ∀ x f g, other.1.iterate x f g = (now.1.iterate x f g).map fun next =>
        (next.1.withMetric variant, next.2) := by
  intro now other
  have hother : other = (now.1.withMetric variant, now.2) := by
    have hconverse := converse_withMetric x₀ c variant caller x₀.toArray k
    rwa [← start_withMetric] at hconverse
  have hunbounded : ∀ s, now.1.body = .ok s → s.Unbounded := fun s =>
    unbounded_converse x₀ c caller x₀.toArray k
  rw [hother]
  exact ⟨rfl, readings_congr rfl rfl, accepted?_congr rfl rfl, rfl,
    iterate_withMetric hunbounded variant⟩

/-- The variable metric and its variant with masks, from one on the line. -/
theorem masked_metric_agrees :
    let c : Config ℝ := { algorithm := .variableMetric }
    let answer : Nat → ℝ × Vector ℝ 1 := fun k => (if k = 0 then 1 else 0, #v[1])
    let now := (start #v[1] c {}).converse (answering answer) #[1]
    let masked := (start #v[1] { c with metric := .vmlmb } {}).converse (answering answer) #[1]
    (now 1).1.accepted? = some ⟨#v[1], 1, #v[1]⟩ ∧
      (masked 1).1.accepted? = some ⟨#v[1], 1, #v[1]⟩ ∧ (masked 3).2 = (now 3).2 ∧
      (masked 3).1.readings = (now 3).1.readings := by
  intro c answer now masked
  have hvalid : c.validate = .ok () := validate_default
  have hbegin : begin? #v[1] c {} = .ok (.initial c (Box.whole 1)) := by
    rw [begin?, hvalid, checkStart_real _ one_pos, Box.ofBounds_empty]
    rfl
  have hfirst : (now 1).1.accepted? = some ⟨#v[1], 1, #v[1]⟩ :=
    accepted?_first hbegin (Box.contains_whole _) (flaw?_real 1 _)
  obtain ⟨-, -, hagree, -⟩ := variants_agree_unbounded #v[1] c .vmlmb (answering answer) 1
  obtain ⟨hpoint, hreadings, -⟩ := variants_agree_unbounded #v[1] c .vmlmb (answering answer) 3
  exact ⟨hfirst, hagree.trans hfirst, hpoint, hreadings⟩

end Optimizer

end Descent
