/-
# Clipped steps

A run with bounds searches along directions that do not point out of its box, so the limits that it
finds for its steps are those of the path that it follows, and the steps that it takes for clipped
are those that the bounds have altered.  The arithmetic is exact.

* `Box.projectDirection_idem`, `Box.projectDirection_steepest` : directions that are projected;
* `Trial.Projected` : what is known of a line search in a box;
* `Trial.Projected.isClipped_iff_ne` : the steps that count as clipped;
* `Solver.Transition.projected` : a run keeps to projected directions;
* `Optimizer.step_limits_describe_path` : what the step limits say.
-/
import Mathlib
import Descent.Proofs.CurvatureMemory
import Descent.Proofs.Decrease
import Descent.Proofs.Departure
import Descent.Proofs.ProjectedPath
import Descent.Proofs.Symmetry.Conversations

namespace Descent

open Scalar ExactScalar StrictScalar

variable {α : Type} [Scalar α] [ExactScalar α] {n : Nat}

/-! ## Projected directions -/

namespace Interval

omit [ExactScalar α] in
/-- A projected velocity is not changed again. -/
theorem projectVelocity_idem (I : Interval α) (x d : α) :
    I.projectVelocity x (I.projectVelocity x d) = I.projectVelocity x d := by
  unfold projectVelocity
  split
  · exact ite_self 0
  · rfl

/-- The opposite of a projected derivative is a projected velocity. -/
theorem projectVelocity_neg_projectGradient [StrictScalar α] (I : Interval α) (x g : α) :
    I.projectVelocity x (-I.projectGradient x g) = -I.projectGradient x g := by
  unfold projectGradient
  split
  · rw [StrictScalar.neg_zero]
    exact ite_self 0
  · next hfree =>
    unfold blocks at hfree
    unfold projectVelocity
    rw [if_neg]
    simpa only [neg_lt_zero_iff, zero_lt_neg_iff] using hfree

end Interval

namespace Box

omit [ExactScalar α] in
theorem projectDirection_of_unbounded {box : Box α n} (h : box.bounded = false)
    (x d : Vector α n) : box.projectDirection x d = d := by
  simp [projectDirection, h]

omit [ExactScalar α] in
/-- A projected direction is not changed again. -/
theorem projectDirection_idem (box : Box α n) (x d : Vector α n) :
    box.projectDirection x (box.projectDirection x d) = box.projectDirection x d := by
  cases hbounded : box.bounded with
  | false => rw [projectDirection_of_unbounded hbounded, projectDirection_of_unbounded hbounded]
  | true =>
    ext i hi
    simp only [getElem_projectDirection box hbounded, Interval.projectVelocity_idem]

/-- Steepest descent is a projected direction. -/
theorem projectDirection_steepest [StrictScalar α] (box : Box α n) (x g : Vector α n) :
    box.projectDirection x (negate (box.effectiveGradient x g)) =
      negate (box.effectiveGradient x g) := by
  cases hbounded : box.bounded with
  | false => rw [projectDirection_of_unbounded hbounded]
  | true =>
    ext i hi
    simp only [getElem_projectDirection box hbounded, effectiveGradient, hbounded, if_true,
      getElem_negate, getElem_projectedGradient, Interval.projectVelocity_neg_projectGradient]

end Box

namespace Solver

variable [StrictScalar α] {c : Config α} {s s' : Solver α n} {x x' g : Vector α n} {f : α}

/-- A heading in a box is a projected direction, if the engine supports bounds. -/
theorem projectDirection_heading
    (h : s.box.bounded = true → s.engine.isConjugate = false ∧ c.metric ≠ .lbfgs) (p : Point α n) :
    s.box.projectDirection p.x (s.heading c p).direction = (s.heading c p).direction := by
  cases hbounded : s.box.bounded with
  | false => exact Box.projectDirection_of_unbounded hbounded _ _
  | true =>
    obtain ⟨hkind, hmetric⟩ := h hbounded
    cases hengine : s.engine with
    | conjugate last =>
      rw [hengine] at hkind
      cases hkind
    | metric pairs =>
      by_cases hdescends :
          descends c (dot p.g (s.propose c p).2.1) s.norm (norm2 (s.propose c p).2.1) = true
      · rw [heading_of_descends hdescends]
        simp only [propose, hengine]
        unfold metricDirection
        cases hvariant : c.metric with
        | lbfgs => exact absurd hvariant hmetric
        | blmvm => exact s.box.projectDirection_idem _ _
        | vmlmb => exact s.box.projectDirection_idem _ _
      · rw [heading_of_not_descends hdescends]
        simp only [steepest, hengine]
        exact s.box.projectDirection_steepest _ _

end Solver

/-! ## Line searches -/

/-- What is known of a line search in a box. -/
structure Trial.Projected (box : Box α n) (trial : Trial α n) : Prop where
  /-- It is sound. -/
  sound : trial.run.Sound
  /-- It knows the first limit of its path. -/
  firstHit : trial.firstHit = (box.stepLimits trial.base.x trial.direction).first
  /-- Its direction is projected. -/
  projected : box.projectDirection trial.base.x trial.direction = trial.direction
  /-- Its direction is finite. -/
  finite : ∃ d : Vector ℝ n, trial.direction = ofReals d

/-- The step of a search counts as clipped if it is longer than the first limit of its path. -/
theorem Trial.Projected.isClipped_iff {box : Box α n} {trial : Trial α n}
    (h : trial.Projected box) :
    Solver.isClipped trial = true ↔
      ∃ first, (box.stepLimits trial.base.x trial.direction).first = some first ∧
        first < trial.run.step := by
  rw [Solver.isClipped, h.firstHit, Option.any_eq_true]
  simp

/-- **Clipped steps.**  The step of a search that starts in the box counts as clipped exactly if
the trial point is not the one reached without bounds. -/
theorem Trial.Projected.isClipped_iff_ne [StrictScalar α] {box : Box α n} {trial : Trial α n}
    (h : trial.Projected box) (hbox : box.Valid) (hx : box.contains trial.base.x = true) :
    Solver.isClipped trial = true ↔
      Solver.trialPoint box trial.base trial.direction trial.run.step ≠
        axpy trial.run.step trial.direction trial.base.x := by
  obtain ⟨d, hd⟩ := h.finite
  cases hstep : isFinite trial.run.step with
  | true =>
    obtain ⟨t, ht⟩ := isFinite_iff.mp hstep
    have hpos : 0 ≤ t := by
      have hnot := h.sound.step
      rwa [ht, ofReal_lt_zero, not_lt] at hnot
    have hstraight := Box.straight_iff hbox hx d hpos
    rw [← hd, h.projected] at hstraight
    rw [h.isClipped_iff, Solver.trialPoint, ht, Ne, ← Box.path, hstraight]
    simp
  | false =>
    -- an undefined step leads nowhere, with or without bounds
    have hpoint : Solver.trialPoint box trial.base trial.direction trial.run.step =
        axpy trial.run.step trial.direction trial.base.x := by
      ext i hi
      rw [Solver.trialPoint, hbox.getElem_project, Interval.clamp_of_isNaN]
      simp [getElem_axpy, isNaN_eq, hstep]
    rw [h.isClipped_iff]
    refine iff_of_false ?_ (not_not_intro hpoint)
    rintro ⟨hit, -, hlt⟩
    obtain ⟨-, y, -, hy, -⟩ := lt_iff.mp hlt
    rw [hy, isFinite_ofReal] at hstep
    cases hstep

namespace Solver

/-- A run in a box searches along projected directions. -/
structure Projected (c : Config α) (s : Solver α n) : Prop where
  /-- The sides of the box are in order. -/
  box : s.box.Valid
  /-- Bounds are respected by the source of directions. -/
  supported : s.box.bounded = true → s.engine.isConjugate = false ∧ c.metric ≠ .lbfgs
  /-- A line search is that of a box. -/
  searching : ∀ trial, s.phase = .searching trial → trial.Projected s.box

variable {c : Config α} {s s' : Solver α n} {x x' g : Vector α n} {f : α}

/-- The box and the kind of the engine are kept, so only the line search is in question. -/
theorem Projected.keep (h : s.Projected c) (htrans : Transition c s x f g s' x')
    (hsearch : ∀ trial, s'.phase = .searching trial → trial.Projected s.box) :
    s'.Projected c where
  box := htrans.box_eq ▸ h.box
  supported := by
    rw [htrans.box_eq, htrans.isConjugate_eq]
    exact h.supported
  searching := by
    rw [htrans.box_eq]
    exact hsearch

/-- Every transition keeps a run on projected directions. -/
theorem Transition.projected [StrictScalar α] (htrans : Transition c s x f g s' x')
    (h : s.Projected c) : s'.Projected c := by
  refine h.keep htrans fun trial' hphase => ?_
  cases htrans with
  | project hs hx => exact h.searching trial' hphase
  | idle last verdict hs => exact h.searching trial' hphase
  | first hs hx hflaw => exact absurd hphase (heed_settle_ne_searching c _ _ none trial')
  | step trial remark hs hflaw hanswer =>
    exact absurd hphase (heed_settle_ne_searching c _ _ remark trial')
  | retry trial run hs hflaw hanswer hleft =>
    cases hphase
    obtain ⟨hsound, hfirst, hprojected, hfinite⟩ := h.searching trial hs
    exact ⟨(hsound.next hanswer).1, hfirst, hprojected, hfinite⟩
  | search p range run hs hslope hleft hrange hstart =>
    cases hphase
    rw [(s.heading_spec c p).1] at hslope
    obtain ⟨-, d, -, hd⟩ := exists_ofReals_of_dot_neg hslope
    refine ⟨(Run.sound_start hstart).1, ?_, projectDirection_heading h.supported p, d, hd⟩
    rw [hrange]
    exact firstHit_stepRange h.box p _
  | _ => cases hphase

end Solver

/-! ## Series of calls -/

namespace Optimizer

variable {x₀ : Vector α n} {c : Config α} {bounds : Bounds α}

/-- A run searches along projected directions after any calls. -/
theorem projected_after [StrictScalar α] (calls : List (Call α)) {s : Solver α n}
    (hs : ((start x₀ c bounds).after calls).body = .ok s) : s.Projected c := by
  refine (reachable_after x₀ c bounds calls).invariant ?_ ?_ hs
  · intro s hbegin
    have hsupported := supported_of_begin? hbegin
    obtain ⟨-, -, box, hbox, -, rfl⟩ := begin?_eq_ok hbegin
    exact ⟨Box.valid_of_ofBounds hbox, hsupported, fun trial hphase => by cases hphase⟩
  · intro s x f g s' x' htrans
    exact htrans.projected

/-- **Step limits and projected paths.**  In exact arithmetic the limits of the path along a
direction from a point of the box say up to where the path is straight and from where on it rests.
Every direction that a run searches along is its own projection.  A step counts as clipped if it is
longer than the first limit, and in a search that starts in the box this means that the bounds have
altered it. -/
theorem step_limits_describe_path [StrictScalar α] (x₀ : Vector α n) (c : Config α)
    (bounds : Bounds α) :
    (∀ box, Box.ofBounds bounds n = .ok box → ∀ x, box.contains x = true → ∀ d : Vector ℝ n,
      (box.stepLimits x (ofReals d)).Describes box x (ofReals d)) ∧
    ∀ calls s trial, ((start x₀ c bounds).after calls).body = .ok s →
      s.phase = .searching trial →
      s.box.projectDirection trial.base.x trial.direction = trial.direction ∧
      (Solver.isClipped trial = true ↔
        ∃ first, (s.box.stepLimits trial.base.x trial.direction).first = some first ∧
          first < trial.run.step) ∧
      (s.box.contains trial.base.x = true →
        (Solver.isClipped trial = true ↔
          Solver.trialPoint s.box trial.base trial.direction trial.run.step ≠
            axpy trial.run.step trial.direction trial.base.x)) := by
  refine ⟨fun box hbox x hx d => ?_, fun calls s trial hs hphase => ?_⟩
  · exact Box.describes_stepLimits (Box.valid_of_ofBounds hbox) hx d
  · obtain ⟨hbox, -, hsearching⟩ := projected_after calls hs
    have htrial := hsearching trial hphase
    exact ⟨htrial.projected, htrial.isClipped_iff, htrial.isClipped_iff_ne hbox⟩

/-- Steepest descent in the strip meets one end of it after the other. -/
theorem stepLimits_strip :
    (⟨strip, true⟩ : Box ℝ 2).stepLimits #v[1, 2] #v[-4, -5] = ⟨some (1 / 4), some (2 / 5)⟩ := by
  rw [← negate_pair]
  exact stepLimits_strip_negate (by norm_num) (by norm_num) (by norm_num) (by norm_num)

/-- A run that begins in the strip waits at its first point. -/
theorem strip_waits :
    let o := (start #v[1, 2] projected (.ofSides strip)).after [⟨#[1, 2], 1, #[4, 5]⟩]
    o.task = .newX ∧ o.evaluations = 1 ∧ o.accepted? = some ⟨#v[1, 2], 1, #v[4, 5]⟩ := by
  have hnorm : (⟨strip, true⟩ : Box ℝ 2).effectiveNorm #v[1, 2] #v[4, 5] = √41 := by
    rw [effectiveNorm_strip (by norm_num) (by norm_num) (by norm_num), norm2, dot_pair]
    norm_num [sqrt]
  have hlarge : (1 : ℝ) < √41 := Real.lt_sqrt_of_sq_lt (by norm_num)
  have hinside : (⟨strip, true⟩ : Box ℝ 2).contains #v[1, 2] = true :=
    contains_strip (by norm_num) (by norm_num) (by norm_num)
  exact waits_at_first (begin?_strip _) hinside
    (flaw?_real 1 _)
    (by rw [Solver.initial, hnorm, larger_tolerances rfl rfl]; linarith) (by decide)

/-- A path in the strip, and the first search of the run that begins there. -/
theorem strip_limits_path :
    let box : Box ℝ 2 := ⟨strip, true⟩
    let path := box.path #v[1, 2] #v[-4, -5]
    let line (t : ℝ) := axpy t (box.projectDirection #v[1, 2] #v[-4, -5]) #v[1, 2]
    let call : Call ℝ := ⟨#[1, 2], 1, #[4, 5]⟩
    ((∀ t, 0 ≤ t → t ≤ 1 / 4 → path t = line t) ∧ (∀ t, 1 / 4 < t → path t ≠ line t) ∧
      IsLeast {m | 0 ≤ m ∧ ∀ t, m ≤ t → path t = path m} (2 / 5)) ∧
    ∃ s trial, ((start #v[1, 2] projected (.ofSides strip)).after [call, call]).body = .ok s ∧
      s.phase = .searching trial ∧ s.box.contains trial.base.x = true ∧
      s.box.projectDirection trial.base.x trial.direction = trial.direction ∧
      (Solver.isClipped trial = true ↔
        Solver.trialPoint s.box trial.base trial.direction trial.run.step ≠
          axpy trial.run.step trial.direction trial.base.x) := by
  intro box path line call
  have hinside : box.contains #v[1, 2] = true :=
    contains_strip (by norm_num) (by norm_num) (by norm_num)
  obtain ⟨hlimits, hruns⟩ := step_limits_describe_path #v[1, 2] projected (.ofSides strip)
  have hbox : Box.ofBounds (.ofSides strip) 2 = .ok box := by
    rw [Box.ofBounds, resolve_ofSides valid_strip]
    rfl
  constructor
  · have hdescribes := hlimits box hbox #v[1, 2] hinside #v[-4, -5]
    have hreals : (ofReals #v[-4, -5] : Vector ℝ 2) = #v[-4, -5] := by
      ext i hi
      exact getElem_ofReals _ i hi
    rw [hreals, stepLimits_strip] at hdescribes
    refine ⟨fun t ht hle => hdescribes.straight t ht ?_, hdescribes.bent _ rfl, ?_⟩
    · rintro first hfirst
      cases hfirst
      exact hle
    · obtain ⟨l, hl, hleast⟩ := hdescribes.rests _ rfl
      cases hl
      exact hleast
  · obtain ⟨htask, hcount, haccepted⟩ := strip_waits
    obtain ⟨s, trial, hbody, hphase, hbase⟩ :=
      exists_searching [call] htask (hcount.trans_lt (by decide)) #v[1, 2] 1 #v[4, 5]
    have hin : s.box.contains trial.base.x = true := by
      obtain ⟨s', hs', -, hsame⟩ := recorded_after (begin?_strip _) [call, call]
      cases hbody.symm.trans hs'
      rw [hsame, ← Option.some.inj (haccepted.symm.trans hbase)]
      exact hinside
    obtain ⟨hprojected, -, hclipped⟩ := hruns [call, call] s trial hbody hphase
    exact ⟨s, trial, hbody, hphase, hin, hprojected, hclipped hin⟩

end Optimizer

end Descent
