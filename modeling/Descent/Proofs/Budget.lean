/-
# Budgets

The counters of a run against the budgets of its configuration, and how many more
exchanges a run can have with a caller that passes the point back.

* `Solver.WithinBudget` : what holds of the counters in each phase;
* `Solver.Transition.withinBudget` : every transition preserves it;
* `Solver.exchangesLeft` : a bound on the exchanges to come;
* `Solver.Transition.exchangesLeft_lt` : every transition lowers it.
-/
import Descent.Proofs.Exchange
import Descent.Proofs.Projection

namespace Descent

open Scalar

variable {α : Type} [Scalar α] {n : Nat}

namespace Solver

/-! ## Counters -/

/-- The counters stay within the budgets, and in each phase enough is left for what
the phase is waiting for. -/
structure WithinBudget (c : Config α) (s : Solver α n) : Prop where
  /-- One evaluation is always made. -/
  evaluations : s.evaluations ≤ max 1 c.maxEvaluations
  /-- Only so many steps are accepted. -/
  iterations : s.iterations ≤ c.maxIterations
  /-- Every accepted point has cost an evaluation. -/
  accepted : ∀ p, s.accepted? = some p → s.iterations < s.evaluations
  /-- Nothing is counted before the first answer. -/
  opening : s.phase = .opening → s.evaluations = 0 ∧ s.iterations = 0
  /-- A line search has an evaluation left, and a step to be accepted. -/
  searching : ∀ trial, s.phase = .searching trial →
    s.evaluations < c.maxEvaluations ∧ s.iterations < c.maxIterations
  /-- An accepted point is left only for another step. -/
  leaving : ∀ p, s.phase = .accepted p → s.iterations < c.maxIterations

theorem withinBudget_initial (c : Config α) (box : Box α n) : (initial c box).WithinBudget c where
  evaluations := Nat.zero_le _
  iterations := Nat.zero_le _
  accepted := by intro p hp; cases hp
  opening := by intro _; exact ⟨rfl, rfl⟩
  searching := by intro trial h; cases h
  leaving := by intro p h; cases h

variable {c : Config α} {s s' : Solver α n} {x x' : Vector α n} {f : α} {g : Vector α n}

/-- A run that stops within its budgets stays within them. -/
theorem WithinBudget.of_stopped {last : Option (Point α n)} {verdict : Verdict α}
    (hphase : s.phase = .stopped last verdict) (hevals : s.evaluations ≤ max 1 c.maxEvaluations)
    (hiters : s.iterations ≤ c.maxIterations)
    (hlast : ∀ p, last = some p → s.iterations < s.evaluations) : s.WithinBudget c where
  evaluations := hevals
  iterations := hiters
  accepted := by
    intro p hp
    rw [accepted?_of_stopped hphase] at hp
    exact hlast p hp
  opening := by intro h; rw [hphase] at h; cases h
  searching := by intro trial h; rw [hphase] at h; cases h
  leaving := by intro p h; rw [hphase] at h; cases h

/-- A run that accepts a point with a step to spare is within its budgets. -/
theorem WithinBudget.of_accepted {p : Point α n} (hphase : s.phase = .accepted p)
    (hevals : s.evaluations ≤ max 1 c.maxEvaluations) (hleft : s.iterations < c.maxIterations)
    (hlast : s.iterations < s.evaluations) : s.WithinBudget c where
  evaluations := hevals
  iterations := Nat.le_of_lt hleft
  accepted := by intro p hp; exact hlast
  opening := by intro h; rw [hphase] at h; cases h
  searching := by intro trial h; rw [hphase] at h; cases h
  leaving := by intro p h; exact hleft

/-- A run that searches with an evaluation and a step to spare is within its budgets. -/
theorem WithinBudget.of_searching {trial : Trial α n} (hphase : s.phase = .searching trial)
    (hevals : s.evaluations < c.maxEvaluations) (hleft : s.iterations < c.maxIterations)
    (hlast : s.iterations < s.evaluations) : s.WithinBudget c where
  evaluations := by omega
  iterations := Nat.le_of_lt hleft
  accepted := by intro p hp; exact hlast
  opening := by intro h; rw [hphase] at h; cases h
  searching := by intro trial h; exact ⟨hevals, hleft⟩
  leaving := by intro p h; rw [hphase] at h; cases h

/-- A run that gives up at a trial point stays within its budgets. -/
theorem WithinBudget.stop_at_trial (hs : s.WithinBudget c) {trial : Trial α n}
    (hphase : s.phase = .searching trial) (verdict : Verdict α) :
    WithinBudget c
      { s with
        evaluations := s.evaluations + 1
        phase := .stopped (some trial.base) verdict } := by
  obtain ⟨hev, hit⟩ := hs.searching trial hphase
  have hlast := hs.accepted trial.base (accepted?_of_searching hphase)
  refine .of_stopped rfl ?_ hs.iterations ?_
  · show s.evaluations + 1 ≤ _
    omega
  · intro p hp
    show s.iterations < s.evaluations + 1
    omega

/-- A run that gives up at an accepted point stays within its budgets. -/
theorem WithinBudget.stop_at_point (hs : s.WithinBudget c) {p : Point α n}
    (hphase : s.phase = .accepted p) (h : Heading α n) (verdict : Verdict α) :
    WithinBudget c { s.turn h with phase := .stopped (some p) verdict } := by
  have hlast := hs.accepted p (accepted?_of_accepted hphase)
  refine .of_stopped rfl hs.evaluations hs.iterations ?_
  intro q hq
  exact hlast

/-- Every transition stays within the budgets. -/
theorem Transition.withinBudget (h : Transition c s x f g s' x') (hs : s.WithinBudget c) :
    s'.WithinBudget c := by
  have hiters := hs.iterations
  cases h with
  | project hphase hx => exact hs
  | idle last verdict hphase => exact hs
  | flawAtFirst flaw hphase hx hflaw =>
    obtain ⟨hev, hit⟩ := hs.opening hphase
    refine .of_stopped rfl ?_ hiters ?_
    · show s.evaluations + 1 ≤ _
      omega
    · intro p hp
      cases hp
  | first hphase hx hflaw =>
    obtain ⟨hev, hit⟩ := hs.opening hphase
    have hevals : (s.takeFirst c ⟨x, f, g⟩).evaluations ≤ max 1 c.maxEvaluations := by
      show s.evaluations + 1 ≤ _
      omega
    have hlast : (s.takeFirst c ⟨x, f, g⟩).iterations < (s.takeFirst c ⟨x, f, g⟩).evaluations := by
      show s.iterations < s.evaluations + 1
      omega
    rcases (s.takeFirst c ⟨x, f, g⟩).settle_cases c ⟨x, f, g⟩ with ⟨verdict, h⟩ | ⟨h, hleft⟩
    · exact .of_stopped h hevals hiters (fun p hp => hlast)
    · exact .of_accepted h hevals hleft hlast
  | flawAtTrial trial flaw hphase hflaw => exact hs.stop_at_trial hphase flaw
  | spentAtTrial trial run hphase hflaw hanswer hspent => exact hs.stop_at_trial hphase _
  | searchFailed trial step reason hphase hflaw hanswer => exact hs.stop_at_trial hphase _
  | retry trial run hphase hflaw hanswer hmore =>
    obtain ⟨hev, hit⟩ := hs.searching trial hphase
    have hlast := hs.accepted trial.base (accepted?_of_searching hphase)
    exact .of_searching rfl hmore hit (Nat.lt_succ_of_lt hlast)
  | step trial remark hphase hflaw hanswer =>
    obtain ⟨hev, hit⟩ := hs.searching trial hphase
    have hlast := hs.accepted trial.base (accepted?_of_searching hphase)
    have hevals : (s.takeStep c trial ⟨x, f, g⟩).evaluations ≤ max 1 c.maxEvaluations := by
      show s.evaluations + 1 ≤ _
      omega
    -- a step raises both counters, so their order stays
    have hlast' : (s.takeStep c trial ⟨x, f, g⟩).iterations <
        (s.takeStep c trial ⟨x, f, g⟩).evaluations := by
      show s.iterations + 1 < s.evaluations + 1
      omega
    rcases (s.takeStep c trial ⟨x, f, g⟩).heed_settle_cases c ⟨x, f, g⟩ remark with
      ⟨verdict, h⟩ | ⟨h, hleft⟩
    · exact .of_stopped h hevals hit (fun p hp => hlast')
    · exact .of_accepted h hevals hleft hlast'
  | notDescent p hphase hslope => exact hs.stop_at_point hphase _ _
  | spentAtPoint p hphase hslope hspent => exact hs.stop_at_point hphase _ _
  | refused p range refusal hphase hslope hmore hrange hstart => exact hs.stop_at_point hphase _ _
  | search p range run hphase hslope hmore hrange hstart =>
    have hlast := hs.accepted p (accepted?_of_accepted hphase)
    exact .of_searching rfl hmore (hs.leaving p hphase) hlast

/-- Whoever is asked for an evaluation has one left. -/
theorem WithinBudget.evaluations_lt (hs : s.WithinBudget c) (h : s.task = .computeFG) :
    s.evaluations < max 1 c.maxEvaluations := by
  cases hphase : s.phase with
  | opening =>
    have hev := (hs.opening hphase).1
    omega
  | searching trial =>
    have hev := (hs.searching trial hphase).1
    omega
  | accepted p =>
    rw [task_of_accepted hphase] at h
    cases h
  | stopped last verdict =>
    have hterm := isTerminal_of_stopped hphase
    rw [h] at hterm
    cases hterm

/-! ## Exchanges to come -/

/-- The exchange that a first point outside the box costs. -/
def detour (s : Solver α n) (x : Vector α n) : Nat :=
  match s.phase with
  | .opening => if s.box.contains x then 0 else 1
  | _ => 0

/-- The number of exchanges that can still follow when the caller passes the point
`x`: one for every evaluation left, one for leaving every accepted point but the
last, and the detour. -/
def exchangesLeft (c : Config α) (s : Solver α n) (x : Vector α n) : Nat :=
  match s.phase with
  | .opening => 2 * (max 1 c.maxEvaluations - s.evaluations) + s.detour x
  | .searching _ => 2 * (max 1 c.maxEvaluations - s.evaluations)
  | .accepted _ => 2 * (max 1 c.maxEvaluations - s.evaluations) + 1
  | .stopped _ _ => 0

theorem exchangesLeft_of_opening (h : s.phase = .opening) (x : Vector α n) :
    s.exchangesLeft c x = 2 * (max 1 c.maxEvaluations - s.evaluations) + s.detour x := by
  rw [exchangesLeft, h]

theorem exchangesLeft_of_searching {trial : Trial α n} (h : s.phase = .searching trial)
    (x : Vector α n) : s.exchangesLeft c x = 2 * (max 1 c.maxEvaluations - s.evaluations) := by
  rw [exchangesLeft, h]

theorem exchangesLeft_of_accepted {p : Point α n} (h : s.phase = .accepted p) (x : Vector α n) :
    s.exchangesLeft c x = 2 * (max 1 c.maxEvaluations - s.evaluations) + 1 := by
  rw [exchangesLeft, h]

theorem exchangesLeft_of_stopped {last : Option (Point α n)} {verdict : Verdict α}
    (h : s.phase = .stopped last verdict) (x : Vector α n) : s.exchangesLeft c x = 0 := by
  rw [exchangesLeft, h]

/-- Without exchanges left a run has ended. -/
theorem isTerminal_of_exchangesLeft (hs : s.WithinBudget c) (h : s.exchangesLeft c x = 0) :
    s.task.isTerminal = true := by
  cases hphase : s.phase with
  | opening =>
    have hev := (hs.opening hphase).1
    rw [exchangesLeft_of_opening hphase] at h
    omega
  | searching trial =>
    have hev := (hs.searching trial hphase).1
    rw [exchangesLeft_of_searching hphase] at h
    omega
  | accepted p =>
    rw [exchangesLeft_of_accepted hphase] at h
    omega
  | stopped last verdict => exact isTerminal_of_stopped hphase

/-- Only an opening takes a detour. -/
theorem detour_eq_zero (h : s.phase ≠ .opening) (x : Vector α n) : s.detour x = 0 := by
  unfold detour
  split
  · next hopening => exact absurd hopening h
  · rfl

theorem detour_of_contains (h : s.box.contains x = true) : s.detour x = 0 := by
  unfold detour
  split
  · rw [if_pos h]
  · rfl

/-! ## Runs whose caller passes the point back -/

/-- What holds of a run and the point that its caller passes: the box is valid, the
counters are within their budgets, and a run opens only at numbers. -/
structure Driveable (c : Config α) (s : Solver α n) (x : Vector α n) : Prop where
  /-- The box is valid. -/
  box : s.box.Valid
  /-- The counters are within their budgets. -/
  budget : s.WithinBudget c
  /-- At the opening the components of the point are numbers. -/
  opening : s.phase = .opening → ∀ i (_ : i < n), isNaN x[i] = false

variable [OrderedScalar α]

theorem Driveable.contains_project (hs : s.Driveable c x) (hopening : s.phase = .opening) :
    s.box.contains (s.box.project x) = true :=
  (Box.contains_project_iff hs.box x).mpr (hs.opening hopening)

/-- A transition keeps a run driveable. -/
theorem Transition.driveable (h : Transition c s x f g s' x') (hs : s.Driveable c x) :
    s'.Driveable c x' where
  box := by
    rw [h.box_eq]
    exact hs.box
  budget := h.withinBudget hs.budget
  opening := by
    intro hopening i hi
    obtain ⟨hphase, -, rfl, rfl⟩ := h.opening_cases hopening
    have hcontains := hs.contains_project hphase
    rw [Box.contains_iff] at hcontains
    exact Interval.isNaN_of_contains (hcontains i hi)

/-- After a transition no detour is left. -/
theorem Transition.detour_eq_zero (h : Transition c s x f g s' x') (hs : s.Driveable c x) :
    s'.detour x' = 0 := by
  by_cases hopening : s'.phase = .opening
  · obtain ⟨hphase, -, rfl, rfl⟩ := h.opening_cases hopening
    exact detour_of_contains (hs.contains_project hphase)
  · exact Solver.detour_eq_zero hopening x'

/-- A transition leaves fewer exchanges to come. -/
theorem Transition.exchangesLeft_lt (h : Transition c s x f g s' x') (hs : s.Driveable c x)
    (hrunning : s.task.isTerminal = false) : s'.exchangesLeft c x' < s.exchangesLeft c x := by
  have hdetour := h.detour_eq_zero hs
  -- so a transition that stops the run lowers the number
  have hpos : 0 < s.exchangesLeft c x := by
    rcases Nat.eq_zero_or_pos (s.exchangesLeft c x) with hzero | hpos
    · rw [isTerminal_of_exchangesLeft hs.budget hzero] at hrunning
      cases hrunning
    · exact hpos
  cases h with
  | project hphase hx =>
    rw [exchangesLeft_of_opening hphase, exchangesLeft_of_opening hphase, hdetour]
    simp [detour, hphase, hx]
  | first hphase hx hflaw =>
    have hev := (hs.budget.opening hphase).1
    rcases (s.takeFirst c ⟨x, f, g⟩).settle_cases c ⟨x, f, g⟩ with ⟨verdict, h⟩ | ⟨h, -⟩
    · rw [exchangesLeft_of_stopped h]
      exact hpos
    · rw [exchangesLeft_of_accepted h, exchangesLeft_of_opening hphase]
      show 2 * (_ - (s.evaluations + 1)) + 1 < _
      omega
  | retry trial run hphase hflaw hanswer hmore =>
    have hev := (hs.budget.searching trial hphase).1
    rw [exchangesLeft_of_searching hphase, exchangesLeft_of_searching rfl]
    show 2 * (_ - (s.evaluations + 1)) < _
    omega
  | step trial remark hphase hflaw hanswer =>
    have hev := (hs.budget.searching trial hphase).1
    rcases (s.takeStep c trial ⟨x, f, g⟩).heed_settle_cases c ⟨x, f, g⟩ remark with
      ⟨verdict, h⟩ | ⟨h, -⟩
    · rw [exchangesLeft_of_stopped h]
      exact hpos
    · rw [exchangesLeft_of_accepted h, exchangesLeft_of_searching hphase]
      show 2 * (_ - (s.evaluations + 1)) + 1 < _
      omega
  | search p range run hphase hslope hmore hrange hstart =>
    -- no evaluation is made, but the point is left
    rw [exchangesLeft_of_accepted hphase, exchangesLeft_of_searching rfl]
    show 2 * (_ - s.evaluations) < _
    omega
  | idle last verdict hphase =>
    rw [exchangesLeft_of_stopped hphase] at hpos
    omega
  | _ =>
    rw [exchangesLeft_of_stopped rfl]
    exact hpos

omit [OrderedScalar α] in
/-- Every request for an evaluation is answered by an evaluation or by the detour. -/
theorem Transition.evaluations_add_detour (h : Transition c s x f g s' x')
    (hrunning : s.task.isTerminal = false) :
    s'.evaluations + s.detour x = s.evaluations + if s.task = .computeFG then 1 else 0 := by
  have hasked (trial : Trial α n) (hphase : s.phase = .searching trial) :
      s.evaluations + 1 + s.detour x =
        s.evaluations + if s.task = .computeFG then 1 else 0 := by
    have hpast := ne_opening_of_accepted? (accepted?_of_searching hphase)
    rw [if_pos (task_of_searching hphase), Solver.detour_eq_zero hpast x]
  have hleaves (p : Point α n) (hphase : s.phase = .accepted p) :
      s.evaluations + s.detour x = s.evaluations + if s.task = .computeFG then 1 else 0 := by
    have hpast := ne_opening_of_accepted? (accepted?_of_accepted hphase)
    have htask : s.task ≠ .computeFG := by
      rw [task_of_accepted hphase]
      decide
    rw [if_neg htask, Solver.detour_eq_zero hpast x]
  cases h with
  | project hphase hx =>
    rw [if_pos (task_of_opening hphase)]
    simp [detour, hphase, hx]
  | flawAtFirst flaw hphase hx hflaw => rw [if_pos (task_of_opening hphase), detour_of_contains hx]
  | first hphase hx hflaw =>
    rw [if_pos (task_of_opening hphase), detour_of_contains hx]
    rfl
  | flawAtTrial trial flaw hphase hflaw => exact hasked trial hphase
  | spentAtTrial trial run hphase hflaw hanswer hspent => exact hasked trial hphase
  | retry trial run hphase hflaw hanswer hmore => exact hasked trial hphase
  | step trial remark hphase hflaw hanswer => exact hasked trial hphase
  | searchFailed trial step reason hphase hflaw hanswer => exact hasked trial hphase
  | notDescent p hphase hslope => exact hleaves p hphase
  | spentAtPoint p hphase hslope hspent => exact hleaves p hphase
  | refused p range refusal hphase hslope hmore hrange hstart => exact hleaves p hphase
  | search p range run hphase hslope hmore hrange hstart => exact hleaves p hphase
  | idle last verdict hphase =>
    rw [isTerminal_of_stopped hphase] at hrunning
    cases hrunning

end Solver

end Descent
