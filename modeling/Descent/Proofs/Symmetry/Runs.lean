/-
# Symmetries of runs

A run and its image under a symmetry stay images of one another, whatever the run goes through.
Only a verdict may name another component, where more than one is not finite.

* `Symmetry.point`, `Symmetry.trial`, `Symmetry.solver` : what a run keeps, under a symmetry;
* `Solver.Mirrors` : a run and its image;
* `heading_solver`, `searchAlong_solver` : the next line search;
* `Solver.Mirrors.advance` : one call to both.
-/
import Descent.Proofs.Symmetry.Directions
import Descent.Proofs.Symmetry.Searches
import Descent.Proofs.Transition

namespace Descent

open Scalar ExactScalar StrictScalar

variable {α : Type} [Scalar α] [ExactScalar α] {n : Nat}

/-! ## Images -/

namespace Symmetry

/-- A point with its value and gradient, under a symmetry. -/
def point (T : Symmetry n) (p : Point α n) : Point α n :=
  { x := T.act p.x, f := p.f + ofReal T.offset, g := T.act p.g }

/-- A line search from an accepted point, under a symmetry. -/
def trial (T : Symmetry n) (t : Trial α n) : Trial α n :=
  { base := T.point t.base
    direction := T.act t.direction
    firstHit := t.firstHit
    run := t.run.lift T.offset }

/-- A heading under a symmetry. -/
def heading (T : Symmetry n) (h : Solver.Heading α n) : Solver.Heading α n :=
  { h with engine := T.engine h.engine, direction := T.act h.direction }

/-- The state of a run under a symmetry, in another phase. -/
def solver (T : Symmetry n) (s : Solver α n) (phase : Phase α n) : Solver α n :=
  { s with
    box := T.box s.box
    engine := T.engine s.engine
    recent := s.recent.map (· + ofReal T.offset)
    phase }

end Symmetry

/-- A phase and its image. -/
inductive Phase.Mirrors (T : Symmetry n) : Phase α n → Phase α n → Prop
  | opening : Mirrors T .opening .opening
  | searching (trial : Trial α n) : Mirrors T (.searching trial) (.searching (T.trial trial))
  | accepted (p : Point α n) : Mirrors T (.accepted p) (.accepted (T.point p))
  | stopped (last : Option (Point α n)) {v v' : Verdict α} (task : v'.task = v.task)
    (status : v'.status = v.status) : Mirrors T (.stopped last v) (.stopped (last.map T.point) v')

/-- A run and its image. -/
structure Solver.Mirrors (T : Symmetry n) (s s' : Solver α n) : Prop where
  valid : s.box.Valid
  phase : s.phase.Mirrors T s'.phase
  image : s' = T.solver s s'.phase

/-- What comes out of a call to a run and to its image. -/
def Solver.Mirrored (T : Symmetry n) (r r' : Solver α n × Vector α n) : Prop :=
  r.1.Mirrors T r'.1 ∧ r'.2 = T.act r.2

variable (T : Symmetry n) (c : Config α)

/-! ## Verdicts -/

/-- The flaws of an answer and of its image have the same task and status. -/
theorem mirrors_stopped_of_flaw? {f f' : α} {g g' : Vector α n} {v v' : Verdict α}
    (last : Option (Point α n)) (h : flaw? f g = some v) (h' : flaw? f' g' = some v') :
    Phase.Mirrors T (.stopped last v) (.stopped (last.map T.point) v') :=
  .stopped last (by rw [task_of_flaw? h, task_of_flaw? h'])
    (by rw [status_of_flaw? h, status_of_flaw? h'])

namespace Solver

variable {s : Solver α n}

/-- The tests at a point and at its image have the same outcome. -/
theorem mirrors_settle {s' : Solver α n} (p : Point α n) (hnorm : s'.norm = s.norm)
    (hopening : s'.openingNorm = s.openingNorm) (hcount : s'.iterations = s.iterations) :
    Phase.Mirrors T (s.settle c p) (s'.settle c (T.point p)) := by
  unfold settle threshold
  rw [hnorm, hopening, hcount]
  split
  · exact .stopped (some p) rfl rfl
  · split
    · exact .stopped (some p) rfl rfl
    · exact .accepted p

omit [Scalar α] [ExactScalar α] in
/-- A remark other than rounding errors has no effect. -/
theorem heed_of_ne {remark : Option StopReason} (h : remark ≠ some .roundingErrors)
    (phase : Phase α n) : heed remark phase = phase := by
  unfold heed
  split
  · exact absurd rfl h
  · rfl

/-- A remark has the same effect on both. -/
theorem mirrors_heed {phase phase' : Phase α n} (h : Phase.Mirrors T phase phase')
    (remark : Option StopReason) :
    Phase.Mirrors T (heed remark phase) (heed remark phase') := by
  by_cases hremark : remark = some .roundingErrors
  · subst hremark
    cases h with
    | opening => exact .opening
    | searching trial => exact .searching trial
    | accepted p => exact .stopped (some p) rfl rfl
    | stopped last htask hstatus => exact .stopped last htask hstatus
  · rw [heed_of_ne hremark, heed_of_ne hremark]
    exact h

end Solver

variable [StrictScalar α]

/-! ## Answers -/

theorem isFinite_act_iff (g : Vector α n) :
    (∀ i (_ : i < n), isFinite (T.act g)[i] = true) ↔ ∀ i (_ : i < n), isFinite g[i] = true := by
  simp only [T.getElem_act, isFinite_mirror]
  exact T.forall_order (p := fun i => isFinite g[i] = true)

/-- An answer has a flaw together with its image. -/
theorem flaw?_act (f : α) (g : Vector α n) :
    flaw? (f + ofReal T.offset) (T.act g) = none ↔ flaw? f g = none := by
  have hfinite (f : α) (g : Vector α n) : flaw? f g = none ↔
      isFinite f = true ∧ ∀ i (_ : i < n), isFinite g[i] = true :=
    ⟨fun h => ⟨isFinite_value_of_flaw? h, isFinite_gradient_of_flaw? h⟩,
      fun h => flaw?_of_isFinite h.1 h.2⟩
  rw [hfinite, hfinite, isFinite_act_iff, isFinite_add, isFinite_ofReal, Bool.and_true]

namespace Solver

variable {s : Solver α n}

/-! ## Accepted points -/

@[simp] theorem gradientNormAt_solver (phase : Phase α n) (p : Point α n) :
    (T.solver s phase).gradientNormAt (T.point p) = s.gradientNormAt p :=
  T.effectiveNorm_box s.box p.x p.g

/-- The first point is taken up as its image is. -/
theorem takeFirst_solver (phase : Phase α n) (p : Point α n) :
    (T.solver s phase).takeFirst c (T.point p) = T.solver (s.takeFirst c p) phase := by
  unfold takeFirst
  rw [gradientNormAt_solver]
  have hrecent : remember c (T.point p).f (T.solver s phase).recent =
      (remember c p.f s.recent).map (· + ofReal T.offset) := remember_lift c p.f s.recent T.offset
  rw [hrecent]
  rfl

/-- What an accepted step teaches goes along. -/
theorem learnFrom_engine (engine : Engine α n) (trial : Trial α n) (d y : Vector α n) :
    learnFrom c (T.engine engine) (T.trial trial) (T.act d) (T.act y) =
      T.engine (learnFrom c engine trial d y) := by
  have hclipped : isClipped (T.trial trial) = isClipped trial := rfl
  cases engine with
  | conjugate last => rfl
  | metric pairs =>
    unfold learnFrom
    simp only [Symmetry.engine, hclipped, T.learn_pairs]
    split
    · rfl
    · rfl

/-- A trial point is taken up as its image is. -/
theorem takeStep_solver (phase : Phase α n) (trial : Trial α n) (p : Point α n) :
    (T.solver s phase).takeStep c (T.trial trial) (T.point p) =
      T.solver (s.takeStep c trial p) phase := by
  have hdisplacement : difference (T.point p).x (T.trial trial).base.x =
      T.act (difference p.x trial.base.x) := difference_act T _ _
  have hchange : difference (T.point p).g (T.trial trial).base.g =
      T.act (difference p.g trial.base.g) := difference_act T _ _
  have hrecent : remember c (T.point p).f (s.recent.map (· + ofReal T.offset)) =
      (remember c p.f s.recent).map (· + ofReal T.offset) := remember_lift c p.f s.recent T.offset
  have hnorm := T.effectiveNorm_box s.box p.x p.g
  unfold takeStep accept
  dsimp only [Symmetry.solver]
  rw [hdisplacement, hchange, dot_act, dot_act, dot_act, learnFrom_engine, hrecent]
  simp only [gradientNormAt, Symmetry.point, hnorm]
  rfl

/-! ## Leaving an accepted point -/

/-- The direction proposed at the image of a point is the image of the one proposed. -/
theorem propose_solver (phase : Phase α n) (p : Point α n) :
    (T.solver s phase).propose c (T.point p) =
      (T.engine (s.propose c p).1, T.act (s.propose c p).2.1, (s.propose c p).2.2) := by
  have hengine : (T.solver s phase).engine = T.engine s.engine := rfl
  unfold propose
  rw [hengine]
  cases s.engine with
  | conjugate last =>
    have hnext := T.next_conjugate c last p.g s.step
    simp only [Symmetry.engine, Symmetry.point, Symmetry.solver, hnext]
    rfl
  | metric pairs =>
    simp only [Symmetry.engine, Symmetry.point, Symmetry.solver, T.effectiveGradient_box,
      T.metricDirection_box]

/-- So is steepest descent. -/
theorem steepest_solver (phase : Phase α n) (p : Point α n) :
    (T.solver s phase).steepest (T.point p) =
      (T.engine (s.steepest p).1, T.act (s.steepest p).2) := by
  have hengine : (T.solver s phase).engine = T.engine s.engine := rfl
  unfold steepest
  rw [hengine]
  cases s.engine with
  | conjugate last =>
    simp only [Symmetry.engine, Symmetry.point, T.steepest_act]
    rfl
  | metric pairs =>
    simp only [Symmetry.engine, Symmetry.point, Symmetry.solver, T.effectiveGradient_box,
      negate_act]
    rfl

/-- The heading at the image of a point is the image of the heading. -/
theorem heading_solver (phase : Phase α n) (p : Point α n) :
    (T.solver s phase).heading c (T.point p) = T.heading (s.heading c p) := by
  have hslope (d : Vector α n) : dot (T.point p).g (T.act d) = dot p.g d := dot_act T p.g d
  have hnorm : (T.solver s phase).norm = s.norm := rfl
  unfold heading
  rw [propose_solver, steepest_solver]
  dsimp only
  rw [hslope, hslope, norm2_act, norm2_act, hnorm, apply_ite T.heading]
  rfl

/-- The range of steps is the same. -/
theorem stepRange_solver (phase : Phase α n) (p : Point α n) (h : Heading α n) :
    (T.solver s phase).stepRange c (T.point p) (T.heading h) = s.stepRange c p h := by
  have hpairs : (T.heading h).engine.memoryLength = h.engine.memoryLength :=
    T.memoryLength_engine h.engine
  have hpoint : norm2 (T.point p).x = norm2 p.x := norm2_act T p.x
  have hlimits : (T.solver s phase).box.stepLimits (T.point p).x (T.heading h).direction =
      s.box.stepLimits p.x h.direction := T.stepLimits_box s.box p.x h.direction
  unfold stepRange
  rw [hpairs, hpoint, hlimits]
  rfl

/-- The trial point of an image is the image of the trial point. -/
theorem trialPoint_box {box : Box α n} (h : box.Valid) (base : Point α n) (direction : Vector α n)
    (step : α) :
    trialPoint (T.box box) (T.point base) (T.act direction) step =
      T.act (trialPoint box base direction step) := by
  unfold trialPoint
  rw [← T.project_box box h, ← axpy_act]
  rfl

theorem trialSlope_act (base : Point α n) (x g : Vector α n) (step : α) :
    trialSlope (T.point base) (T.act x) (T.act g) step = trialSlope base x g step := by
  have hdisplacement : difference (T.act x) (T.point base).x = T.act (difference x base.x) :=
    difference_act T x base.x
  unfold trialSlope
  rw [hdisplacement, sumLeft_act]

/-- A line search along the image of a heading begins as the one along the heading. -/
theorem searchAlong_solver (hs : s.box.Valid) (phase : Phase α n) (p : Point α n)
    (h : Heading α n) :
    Phase.Mirrors T (s.searchAlong c p h).1
        ((T.solver s phase).searchAlong c (T.point p) (T.heading h)).1 ∧
      ((T.solver s phase).searchAlong c (T.point p) (T.heading h)).2 =
        T.act (s.searchAlong c p h).2 := by
  have hrange : ((T.solver s phase).turn (T.heading h)).stepRange c (T.point p) (T.heading h) =
      (s.turn h).stepRange c p h := stepRange_solver T c phase p h
  have hstart (first least greatest : α) :
      Run.start c (T.solver s phase).recent (T.point p).f (T.heading h).slope first least greatest =
        (Run.start c s.recent p.f h.slope first least greatest).map (Run.lift T.offset) :=
    Run.start_lift c s.recent p.f h.slope first least greatest T.offset
  unfold searchAlong
  dsimp only
  rw [hrange, hstart]
  cases Run.start c s.recent p.f h.slope ((s.turn h).stepRange c p h).first
    ((s.turn h).stepRange c p h).least ((s.turn h).stepRange c p h).greatest with
  | error refusal => exact ⟨.stopped (some p) rfl rfl, rfl⟩
  | ok run => exact ⟨.searching _, trialPoint_box T hs p h.direction run.step⟩

/-- A run and its image leave a point in the same way. -/
theorem mirrored_depart (hs : s.box.Valid) (phase : Phase α n) (p : Point α n) :
    Mirrored T (s.depart c p) ((T.solver s phase).depart c (T.point p)) := by
  have hstop (verdict : Verdict α) :
      Mirrored T ({ s.turn (s.heading c p) with phase := .stopped (some p) verdict }, p.x)
        ({ (T.solver s phase).turn (T.heading (s.heading c p)) with
            phase := .stopped (some (T.point p)) verdict }, (T.point p).x) :=
    ⟨⟨hs, .stopped (some p) rfl rfl, rfl⟩, rfl⟩
  have hslope : (T.heading (s.heading c p)).slope = (s.heading c p).slope := rfl
  have hcount : (T.solver s phase).evaluations = s.evaluations := rfl
  rw [depart_eq, depart_eq, heading_solver, hslope, hcount]
  split
  · exact hstop _
  · split
    · exact hstop _
    · obtain ⟨hphase, hpoint⟩ := searchAlong_solver T c hs phase p (s.heading c p)
      exact ⟨⟨hs, hphase, rfl⟩, hpoint⟩

/-! ## Answers to a run and to its image -/

/-- A run and its image go on from a first point in the same way. -/
theorem mirrored_first (hs : s.box.Valid) (phase : Phase α n) (p : Point α n) :
    Mirrored T ({ s.takeFirst c p with phase := (s.takeFirst c p).settle c p }, p.x)
      ({ (T.solver s phase).takeFirst c (T.point p) with
          phase := ((T.solver s phase).takeFirst c (T.point p)).settle c (T.point p) },
        (T.point p).x) := by
  rw [takeFirst_solver]
  exact ⟨⟨hs, mirrors_settle T c p rfl rfl rfl, rfl⟩, rfl⟩

/-- A run and its image go on from an accepted trial point in the same way. -/
theorem mirrored_step (hs : s.box.Valid) (phase : Phase α n) (trial : Trial α n) (p : Point α n)
    (remark : Option StopReason) :
    Mirrored T
      ({ s.takeStep c trial p with phase := heed remark ((s.takeStep c trial p).settle c p) }, p.x)
      ({ (T.solver s phase).takeStep c (T.trial trial) (T.point p) with
          phase := heed remark
            (((T.solver s phase).takeStep c (T.trial trial) (T.point p)).settle c (T.point p)) },
        (T.point p).x) := by
  rw [takeStep_solver]
  exact ⟨⟨hs, mirrors_heed T (mirrors_settle T c p rfl rfl rfl) remark, rfl⟩, rfl⟩

/-- A run and its image take an answer at the first point in the same way. -/
theorem mirrored_answerOpening (hs : s.box.Valid) (hphase : s.phase = .opening) (x : Vector α n)
    (f : α) (g : Vector α n) :
    Mirrored T (s.answerOpening c x f g)
      ((T.solver s .opening).answerOpening c (T.act x) (f + ofReal T.offset) (T.act g)) := by
  have hcontains : (T.solver s .opening).box.contains (T.act x) = s.box.contains x :=
    T.contains_box s.box x
  unfold answerOpening
  rw [hcontains]
  cases s.box.contains x with
  | false =>
    refine ⟨⟨hs, ?_, rfl⟩, T.project_box s.box hs x⟩
    show Phase.Mirrors T s.phase .opening
    rw [hphase]
    exact .opening
  | true =>
    cases hflaw : flaw? f g with
    | none =>
      rw [(flaw?_act T f g).mpr hflaw]
      exact mirrored_first T c hs .opening ⟨x, f, g⟩
    | some v =>
      obtain ⟨v', hflaw'⟩ := Option.ne_none_iff_exists'.mp
        (mt (flaw?_act T f g).mp (hflaw ▸ Option.some_ne_none v))
      rw [hflaw']
      exact ⟨⟨hs, mirrors_stopped_of_flaw? T none hflaw hflaw', rfl⟩, rfl⟩

/-- A run and its image take an answer at a trial point in the same way. -/
theorem mirrored_answerTrial (hs : s.box.Valid) (trial : Trial α n) (x : Vector α n) (f : α)
    (g : Vector α n) (phase : Phase α n) :
    Mirrored T (s.answerTrial c trial x f g)
      ((T.solver s phase).answerTrial c (T.trial trial) (T.act x) (f + ofReal T.offset)
        (T.act g)) := by
  unfold answerTrial
  cases hflaw : flaw? f g with
  | none =>
    have hanswer : (T.trial trial).run.answer c (f + ofReal T.offset)
        (trialSlope (T.trial trial).base (T.act x) (T.act g) (T.trial trial).run.step) =
          (trial.run.answer c f (trialSlope trial.base x g trial.run.step)).lift T.offset :=
      (congrArg _ (trialSlope_act T trial.base x g trial.run.step)).trans
        (Run.answer_lift c trial.run f _ T.offset)
    rw [(flaw?_act T f g).mpr hflaw]
    dsimp only
    rw [hanswer]
    cases trial.run.answer c f (trialSlope trial.base x g trial.run.step) with
    | next run =>
      dsimp only [Answer.lift]
      have hcount : (T.solver s phase).evaluations = s.evaluations := rfl
      rw [hcount]
      split
      · exact ⟨⟨hs, .stopped (some trial.base) rfl rfl, rfl⟩, rfl⟩
      · exact ⟨⟨hs, .searching { trial with run }, rfl⟩,
          trialPoint_box T hs trial.base trial.direction run.step⟩
    | accepted remark => exact mirrored_step T c hs phase trial ⟨x, f, g⟩ remark
    | failed step reason => exact ⟨⟨hs, .stopped (some trial.base) rfl rfl, rfl⟩, rfl⟩
  | some v =>
    obtain ⟨v', hflaw'⟩ := Option.ne_none_iff_exists'.mp
      (mt (flaw?_act T f g).mp (hflaw ▸ Option.some_ne_none v))
    rw [hflaw']
    exact ⟨⟨hs, mirrors_stopped_of_flaw? T (some trial.base) hflaw hflaw', rfl⟩, rfl⟩

/-- **One call to both.**  A run and its image answer a call and its image in the same way. -/
theorem Mirrors.advance {s' : Solver α n} (h : s.Mirrors T s') (x : Vector α n) (f : α)
    (g : Vector α n) :
    Mirrored T (s.advance c x f g)
      (s'.advance c (T.act x) (f + ofReal T.offset) (T.act g)) := by
  obtain ⟨hs, hphase, himage⟩ := h
  unfold Solver.advance
  generalize hp : s.phase = phase at hphase
  generalize hp' : s'.phase = phase' at hphase himage
  subst himage
  cases hphase with
  | opening => exact mirrored_answerOpening T c hs hp x f g
  | searching trial => exact mirrored_answerTrial T c hs trial x f g _
  | accepted p => exact mirrored_depart T c hs _ p
  | stopped last htask hstatus =>
    refine ⟨⟨hs, ?_, rfl⟩, rfl⟩
    show Phase.Mirrors T s.phase (.stopped (last.map T.point) _)
    rw [hp]
    exact .stopped last htask hstatus

end Solver

end Descent
