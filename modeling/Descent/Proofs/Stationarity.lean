/-
# Stationary points

A run evaluates the gradient norm once at each accepted point and from then on only
reads what it has recorded.  The record is never out of date, and a run has converged
exactly where the recorded norm is within the tolerances.

* `Solver.Recorded` : what a run records about its accepted points;
* `Solver.Transition.recorded` : transitions keep the record;
* `Optimizer.finalX_iff_norm_le_threshold` : which accepted points end a run as
  stationary.
-/
import Descent.Proofs.AcceptedPoint

namespace Descent

open Scalar

variable {α : Type} [Scalar α] {n : Nat}

/-! ## Verdicts -/

omit [Scalar α] in
/-- Only one verdict says that the point is stationary. -/
theorem Verdict.task_eq_finalX_iff {v : Verdict α} : v.task = .finalX ↔ v = .converged := by
  cases v <;> simp [Verdict.task]

/-- At an answer that is not finite a run does not converge. -/
theorem ne_converged_of_flaw? {f : α} {g : Vector α n} {v : Verdict α}
    (h : flaw? f g = some v) : v ≠ .converged := by
  rintro rfl
  have htask := task_of_flaw? h
  cases htask

namespace Solver

/-! ## The test at a newly accepted point -/

/-- The test for stationarity decides first. -/
theorem task_settle_eq_finalX_iff (c : Config α) (s : Solver α n) (p : Point α n) :
    (s.settle c p).task = .finalX ↔ s.norm ≤ s.threshold c := by
  unfold settle
  by_cases hnorm : s.norm ≤ s.threshold c
  · simp [hnorm, Phase.task, Verdict.task]
  · by_cases hspent : c.maxIterations ≤ s.iterations
    · simp [hnorm, hspent, Phase.task, Verdict.task]
    · simp [hnorm, hspent, Phase.task]

omit [Scalar α] in
/-- No remark makes a point stationary or takes that back. -/
theorem task_heed_eq_finalX_iff (remark : Option StopReason) (phase : Phase α n) :
    (heed remark phase).task = .finalX ↔ phase.task = .finalX := by
  unfold heed
  split
  · simp [Phase.task, Verdict.task]
  · exact Iff.rfl

/-! ## The record -/

/-- What a run records about the points accepted so far, the oldest first. -/
structure Recorded (c : Config α) (points : List (Point α n)) (s : Solver α n) : Prop where
  /-- Before a point is accepted there are none. -/
  fresh : s.accepted? = none → points = []
  /-- The norm is the one at the accepted point. -/
  norm : ∀ p, s.accepted? = some p → s.norm = s.gradientNormAt p
  /-- The norm for the relative tolerance is the one at the first of the points. -/
  opening : ∀ p, s.accepted? = some p →
    ∃ p₀, points.head? = some p₀ ∧ s.openingNorm = s.gradientNormAt p₀
  /-- The run has converged if the recorded norm is small enough. -/
  converged : ∀ p, s.accepted? = some p → (s.task = .finalX ↔ s.norm ≤ s.threshold c)

variable {c : Config α} {s s' : Solver α n} {x x' : Vector α n} {f : α} {g : Vector α n}
  {points : List (Point α n)}

theorem recorded_initial (c : Config α) (box : Box α n) : (initial c box).Recorded c [] where
  fresh := by intro _; rfl
  norm := by intro p hp; cases hp
  opening := by intro p hp; cases hp
  converged := by intro p hp; cases hp

/-- A run that neither accepts a point nor ends as converged keeps its record. -/
theorem Recorded.keep (hs : s.Recorded c points) (haccepted : s'.accepted? = s.accepted?)
    (hbox : s'.box = s.box) (hnorm : s'.norm = s.norm) (hopening : s'.openingNorm = s.openingNorm)
    (htask : s.task ≠ .finalX) (htask' : s'.task ≠ .finalX) : s'.Recorded c points where
  fresh := by
    rw [haccepted]
    exact hs.fresh
  norm := by
    intro p hp
    rw [haccepted] at hp
    rw [hnorm, gradientNormAt, hbox]
    exact hs.norm p hp
  opening := by
    intro p hp
    rw [haccepted] at hp
    obtain ⟨p₀, hhead, heq⟩ := hs.opening p hp
    refine ⟨p₀, hhead, ?_⟩
    rw [hopening, gradientNormAt, hbox]
    exact heq
  converged := by
    intro p hp
    rw [haccepted] at hp
    have hthreshold : s'.threshold c = s.threshold c := by rw [threshold, threshold, hopening]
    rw [hnorm, hthreshold, ← hs.converged p hp]
    exact ⟨fun h => absurd h htask', fun h => absurd h htask⟩

/-- A run that stops at its accepted point, other than as converged, keeps its record. -/
theorem Recorded.stop (hs : s.Recorded c points) {last : Option (Point α n)}
    {verdict : Verdict α} (hphase : s'.phase = .stopped last verdict)
    (hlast : s.accepted? = last) (htask : s.task ≠ .finalX) (hverdict : verdict ≠ .converged)
    (hbox : s'.box = s.box) (hcount : s'.iterations = s.iterations) (hnorm : s'.norm = s.norm)
    (hopening : s'.openingNorm = s.openingNorm) :
    s'.accepted? = s.accepted? ∧ s'.iterations = s.iterations ∧ s'.Recorded c points := by
  have hsame : s'.accepted? = s.accepted? := by rw [accepted?_of_stopped hphase, hlast]
  have htask' : s'.task ≠ .finalX := by
    rw [task, hphase]
    intro h
    exact hverdict (Verdict.task_eq_finalX_iff.mp h)
  exact ⟨hsame, hcount, hs.keep hsame hbox hnorm hopening htask htask'⟩

/-- A run that searches from its accepted point keeps its record. -/
theorem Recorded.search (hs : s.Recorded c points) {trial : Trial α n}
    (hphase : s'.phase = .searching trial) (hbase : s.accepted? = some trial.base)
    (htask : s.task ≠ .finalX) (hbox : s'.box = s.box)
    (hcount : s'.iterations = s.iterations) (hnorm : s'.norm = s.norm)
    (hopening : s'.openingNorm = s.openingNorm) :
    s'.accepted? = s.accepted? ∧ s'.iterations = s.iterations ∧ s'.Recorded c points := by
  have hsame : s'.accepted? = s.accepted? := by rw [accepted?_of_searching hphase, hbase]
  have htask' : s'.task ≠ .finalX := by
    rw [task_of_searching hphase]
    decide
  exact ⟨hsame, hcount, hs.keep hsame hbox hnorm hopening htask htask'⟩

/-- A run that accepts a point records it. -/
theorem Recorded.accept {p q : Point α n} (hp : s'.accepted? = some p)
    (hnorm : s'.norm = s'.gradientNormAt p) (hhead : (points ++ [p]).head? = some q)
    (hopening : s'.openingNorm = s'.gradientNormAt q)
    (hconverged : s'.task = .finalX ↔ s'.norm ≤ s'.threshold c) :
    s'.Recorded c (points ++ [p]) where
  fresh := by
    intro h
    rw [hp] at h
    cases h
  norm := by
    intro p' hp'
    rw [hp] at hp'
    cases hp'
    exact hnorm
  opening := by
    intro _ _
    exact ⟨q, hhead, hopening⟩
  converged := by
    intro _ _
    exact hconverged

/-- A transition keeps the record, or it accepts a point and records it. -/
theorem Transition.recorded (h : Transition c s x f g s' x') (hs : s.Recorded c points) :
    (s'.accepted? = s.accepted? ∧ s'.iterations = s.iterations ∧ s'.Recorded c points) ∨
      ((s.accepted? = none ∨ s.iterations < s'.iterations) ∧ s'.accepted? = some ⟨x, f, g⟩ ∧
        s'.Recorded c (points ++ [⟨x, f, g⟩])) := by
  -- a run that searches, or is about to, has not converged
  have hsearching (trial : Trial α n) (hphase : s.phase = .searching trial) :
      s.accepted? = some trial.base ∧ s.task ≠ .finalX := by
    refine ⟨accepted?_of_searching hphase, ?_⟩
    rw [task_of_searching hphase]
    decide
  have hleaving (p : Point α n) (hphase : s.phase = .accepted p) :
      s.accepted? = some p ∧ s.task ≠ .finalX := by
    refine ⟨accepted?_of_accepted hphase, ?_⟩
    rw [task_of_accepted hphase]
    decide
  cases h with
  | project hphase hx => exact .inl ⟨rfl, rfl, hs⟩
  | idle last verdict hphase => exact .inl ⟨rfl, rfl, hs⟩
  | first hphase hx hflaw =>
    right
    have hnone := accepted?_of_opening hphase
    refine ⟨.inl hnone, accepted?_settle c _ _, ?_⟩
    rw [hs.fresh hnone]
    refine .accept (q := ⟨x, f, g⟩) ?_ rfl rfl rfl ?_
    · exact accepted?_settle c _ _
    · exact task_settle_eq_finalX_iff c _ _
  | step trial remark hphase hflaw hanswer =>
    right
    have hnew : (heed remark ((s.takeStep c trial ⟨x, f, g⟩).settle c ⟨x, f, g⟩)).accepted? =
        some ⟨x, f, g⟩ := by
      rw [accepted?_heed, accepted?_settle]
    refine ⟨.inr (Nat.lt_succ_self _), hnew, ?_⟩
    -- the first point stays the first one
    obtain ⟨p₀, hhead, hopening⟩ := hs.opening trial.base (hsearching trial hphase).1
    refine .accept (q := p₀) hnew rfl ?_ hopening ?_
    · rw [List.head?_append, hhead]
      rfl
    · have hheed := task_heed_eq_finalX_iff remark
        ((s.takeStep c trial ⟨x, f, g⟩).settle c ⟨x, f, g⟩)
      exact hheed.trans (task_settle_eq_finalX_iff c _ _)
  -- a line search goes on or begins
  | retry trial run hphase hflaw hanswer hmore =>
    obtain ⟨hbase, htask⟩ := hsearching trial hphase
    exact .inl (hs.search rfl hbase htask rfl rfl rfl rfl)
  | search p range run hphase hslope hmore hrange hstart =>
    obtain ⟨hbase, htask⟩ := hleaving p hphase
    exact .inl (hs.search rfl hbase htask rfl rfl rfl rfl)
  -- the run stops, but not as converged
  | flawAtFirst flaw hphase hx hflaw =>
    have htask : s.task ≠ .finalX := by
      rw [task_of_opening hphase]
      decide
    have hverdict := ne_converged_of_flaw? hflaw
    exact .inl (hs.stop rfl (accepted?_of_opening hphase) htask hverdict rfl rfl rfl rfl)
  | flawAtTrial trial flaw hphase hflaw =>
    obtain ⟨hbase, htask⟩ := hsearching trial hphase
    exact .inl (hs.stop rfl hbase htask (ne_converged_of_flaw? hflaw) rfl rfl rfl rfl)
  | spentAtTrial trial run hphase hflaw hanswer hspent =>
    obtain ⟨hbase, htask⟩ := hsearching trial hphase
    exact .inl (hs.stop rfl hbase htask nofun rfl rfl rfl rfl)
  | searchFailed trial step reason hphase hflaw hanswer =>
    obtain ⟨hbase, htask⟩ := hsearching trial hphase
    exact .inl (hs.stop rfl hbase htask nofun rfl rfl rfl rfl)
  | notDescent p hphase hslope =>
    obtain ⟨hbase, htask⟩ := hleaving p hphase
    exact .inl (hs.stop rfl hbase htask nofun rfl rfl rfl rfl)
  | spentAtPoint p hphase hslope hspent =>
    obtain ⟨hbase, htask⟩ := hleaving p hphase
    exact .inl (hs.stop rfl hbase htask nofun rfl rfl rfl rfl)
  | refused p range refusal hphase hslope hmore hrange hstart =>
    obtain ⟨hbase, htask⟩ := hleaving p hphase
    have hverdict : Verdict.ofRefusal refusal ≠ .converged := by
      cases refusal with
      | notDescent slope => nofun
      | invalidRange step => nofun
    exact .inl (hs.stop rfl hbase htask hverdict rfl rfl rfl rfl)

end Solver

/-! ## Series of calls -/

namespace Optimizer

/-- The gradient norm that an optimizer with an accepted point reports. -/
theorem gradientNorm?_of_body {o : Optimizer α n} {s : Solver α n} {p : Point α n}
    (h : o.body = .ok s) (hp : s.accepted? = some p) : o.gradientNorm? = some s.norm := by
  simp [gradientNorm?, solver?, h, Solver.gradientNorm?, hp]

/-- After any series of calls a run has its record of the points accepted, and its box. -/
theorem recorded_after {x₀ : Vector α n} {c : Config α} {bounds : Bounds α} {s₀ : Solver α n}
    (hbegin : begin? x₀ c bounds = .ok s₀) (calls : List (Call α)) :
    ∃ s, ((start x₀ c bounds).after calls).body = .ok s ∧
      s.Recorded c ((start x₀ c bounds).acceptedPoints calls) ∧ s.box = s₀.box := by
  have hinit : s₀.Recorded c [] := by
    obtain ⟨-, -, box, -, -, rfl⟩ := begin?_eq_ok hbegin
    exact Solver.recorded_initial c box
  refine invariant_acceptedPoints (P := fun points s => s.Recorded c points ∧ s.box = s₀.box)
    rfl hbegin ⟨hinit, rfl⟩ ?_ calls
  rintro points s x f g s' x' htrans ⟨hs, hbox⟩
  rw [← htrans.box_eq] at hbox
  rcases htrans.recorded hs with ⟨hsame, hcount, hs'⟩ | ⟨hnew, hpoint, hs'⟩
  · exact .inl ⟨hsame, hcount, hs', hbox⟩
  · exact .inr ⟨hnew, hpoint, hs', hbox⟩

/-- **Which points are stationary.**  After any series of calls that has accepted a
point, the gradient norm reported is the one at the last accepted point, and the run has
ended there as stationary exactly if this norm is within the absolute tolerance or
within the relative one, which is measured at the first accepted point; further calls
leave that one the first. -/
theorem finalX_iff_norm_le_threshold (x₀ : Vector α n) (c : Config α) (bounds : Bounds α)
    (calls : List (Call α)) {p : Point α n}
    (hp : ((start x₀ c bounds).after calls).accepted? = some p) :
    ∃ (box : Box α n) (p₀ : Point α n), Box.ofBounds bounds n = .ok box ∧
      (∀ more, ((start x₀ c bounds).acceptedPoints (calls ++ more)).head? = some p₀) ∧
      ((start x₀ c bounds).after calls).gradientNorm? = some (box.effectiveNorm p.x p.g) ∧
      (((start x₀ c bounds).after calls).task = .finalX ↔
        box.effectiveNorm p.x p.g ≤
          larger c.gatol (c.grtol * box.effectiveNorm p₀.x p₀.g)) := by
  cases hbody : (start x₀ c bounds).body with
  | error e =>
    -- an optimizer that has not begun accepts nothing
    rw [after_of_error hbody, accepted?_start] at hp
    cases hp
  | ok s₀ =>
    obtain ⟨s, hs, hrecorded, hsbox⟩ := recorded_after hbody calls
    obtain ⟨-, -, box, hbox, -, rfl⟩ := begin?_eq_ok hbody
    change s.box = box at hsbox
    have hopen : ((start x₀ c bounds).after calls).closed = false := by
      rw [closed_after]
      rfl
    rw [accepted?_of_body hopen hs] at hp
    obtain ⟨p₀, hhead, hopening⟩ := hrecorded.opening p hp
    have hnorm := hrecorded.norm p hp
    refine ⟨box, p₀, hbox, ?_, ?_, ?_⟩
    · intro more
      rw [acceptedPoints_append, List.head?_append, hhead]
      rfl
    · rw [gradientNorm?_of_body hs hp, hnorm, Solver.gradientNormAt, hsbox]
    · rw [task_of_body hs, hrecorded.converged p hp, Solver.threshold, hopening, hnorm,
        Solver.gradientNormAt, Solver.gradientNormAt, hsbox]

/-- Calls that answer with a function that is least at the corner of the quadrant; the
second component of its gradient stays blocked there. -/
def cornerCalls : List (Call Float) :=
  [⟨#[1, 0], 1, #[2, 3]⟩, ⟨#[1, 0], 1, #[2, 3]⟩, ⟨#[0.5, 0], 0.25, #[1, 3]⟩]

/-- Settings with a relative tolerance only. -/
def halving : Config Float :=
  { algorithm := .variableMetric, metric := .blmvm, gatol := 0, grtol := 0.5 }

/-- The quadrant. -/
def quadrant : Bounds Float := { lower := .uniform 0 }

/-- The run in the quadrant ends when the norm at its first point has been halved. -/
theorem corner_converges :
    ((start #v[1, 0] halving quadrant).after cornerCalls).task = .finalX ∧
      ∃ p, ((start #v[1, 0] halving quadrant).after cornerCalls).accepted? = some p ∧
        ∃ (box : Box Float 2) (p₀ : Point Float 2), Box.ofBounds quadrant 2 = .ok box ∧
          (∀ more, ((start #v[1, 0] halving quadrant).acceptedPoints
            (cornerCalls ++ more)).head? = some p₀) ∧
          ((start #v[1, 0] halving quadrant).after cornerCalls).gradientNorm? =
            some (box.effectiveNorm p.x p.g) ∧
          (((start #v[1, 0] halving quadrant).after cornerCalls).task = .finalX ↔
            box.effectiveNorm p.x p.g ≤
              larger halving.gatol (halving.grtol * box.effectiveNorm p₀.x p₀.g)) := by
  have hsome : ((start #v[1, 0] halving quadrant).after cornerCalls).accepted?.isSome = true := by
    decide +kernel
  obtain ⟨p, hp⟩ := Option.isSome_iff_exists.mp hsome
  refine ⟨by decide +kernel, p, hp, ?_⟩
  exact finalX_iff_norm_le_threshold #v[1, 0] halving quadrant cornerCalls hp

end Optimizer

end Descent
