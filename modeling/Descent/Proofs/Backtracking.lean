/-
# Backtracking is bounded

In exact arithmetic a search that backtracks at least halves its step with every trial, and does
not go below the least one, so the binary logarithm of the range below its first step bounds the
number of its trials, whatever it is told.  The range that an optimizer gives to a search reaches
down by a factor of `1e-20`, which is less than 67 halvings.

* `Run.Shortens`, `Run.Shrinks` : by how much a step is shortened, and a search has shrunk;
* `Run.Shrinks.next` : what a search that backtracks preserves;
* `LineSearch.shortens_answered`, `LineSearch.status_ne_search_of_limit` : the two bounds;
* `Solver.SearchesSince` : the evaluations that a search has taken;
* `Optimizer.backtracking_is_bounded` : the bounds for searches and optimizers.
-/
import Mathlib
import Descent.Proofs.Conversation
import Descent.Proofs.Departure
import Descent.Proofs.TrialSteps

namespace Descent

open Scalar ExactScalar StrictScalar

variable {α : Type} [Scalar α]

namespace Run

variable [ExactScalar α] {c : Config α} {run run' : Run α} {value slope : α} {first least : ℝ}

/-! ## Steps that shrink -/

/-- A step is replaced by one between a tenth and a half of it that is not below the least one. -/
structure Shortens (c : Config α) (run : Run α) (step : α) : Prop where
  tenth : 0.1 * run.step ≤ step
  half : step ≤ 0.5 * run.step
  armijo : c.lineSearch = .armijo → step = 0.5 * run.step
  least : run.frame.minStep ≤ step

/-- A search that has backtracked from a first step, and stays above the least one. -/
structure Shrinks (run : Run α) (first least : ℝ) : Prop where
  minStep : run.frame.minStep = ofReal least
  /-- Every trial has halved the step. -/
  step : ∃ t, run.step = ofReal t ∧ least ≤ t ∧ t * 2 ^ run.trials ≤ first

theorem shrinks_start {recent : List α} {step maxStep : α}
    (h : start c recent value slope step (ofReal least) maxStep = .ok run) :
    ∃ first, run.step = ofReal first ∧ least ≤ first ∧ run.Shrinks first least := by
  obtain ⟨-, -, horder, -, rfl⟩ := start_eq_ok_iff.mp h
  obtain ⟨-, greatest, -, rfl, -⟩ := le_iff.mp horder
  rw [ofReal_le_ofReal] at horder
  obtain ⟨first, hfirst, hle, -⟩ := exists_clamped step horder
  exact ⟨first, hfirst, hle, rfl, first, hfirst, hle, by simp⟩

/-- **A trial of a search that backtracks.**  Where the search goes on, it does so with a shorter
step, and has halved its step once more. -/
theorem Shrinks.next (h : run.Shrinks first least) (hcubic : c.lineSearch ≠ .cubic)
    (hleast : 0 ≤ least) (hanswer : run.answer c value slope = .next run') :
    run.Shortens c run'.step ∧ run'.Shrinks first least := by
  obtain ⟨-, -, habove, rfl⟩ := backtrack_eq_next hcubic hanswer
  obtain ⟨t, ht, hlt, hfirst⟩ := h.step
  obtain ⟨u, hu, htenth, hhalf, harmijo⟩ := run.exists_shorten c value ht (hleast.trans hlt)
  rw [hu, h.minStep, ofReal_lt_ofReal, not_lt] at habove
  have hhalf' : (0.5 : α) * run.step = ofReal (1 / 2 * t) := by
    rw [literal_eq, ht, ← ofReal_mul]
    norm_num
  have htenth' : (0.1 : α) * run.step = ofReal (1 / 10 * t) := by
    rw [literal_eq, ht, ← ofReal_mul]
    norm_num
  constructor
  · refine ⟨?_, ?_, ?_, ?_⟩
    · rw [htenth', hu, ofReal_le_ofReal]
      exact htenth
    · rw [hhalf', hu, ofReal_le_ofReal]
      exact hhalf
    · intro hsearch
      rw [hhalf', hu, harmijo hsearch]
    · rw [h.minStep, hu, ofReal_le_ofReal]
      exact habove
  · refine ⟨h.minStep, u, hu, habove, ?_⟩
    calc u * 2 ^ (run.trials + 1) = 2 * u * 2 ^ run.trials := by ring
      _ ≤ t * 2 ^ run.trials := by gcongr; linarith
      _ ≤ first := hfirst

/-- The range of steps bounds the number of trials. -/
theorem Shrinks.trials_lt (h : run.Shrinks first least) (hleast : 0 < least) {bound : ℕ}
    (hbound : first < least * 2 ^ bound) : run.trials < bound := by
  obtain ⟨t, -, hlt, hfirst⟩ := h.step
  have hpow : t * 2 ^ run.trials < t * 2 ^ bound :=
    calc t * 2 ^ run.trials ≤ first := hfirst
      _ < least * 2 ^ bound := hbound
      _ ≤ t * 2 ^ bound := by gcongr
  have hpow' := lt_of_mul_lt_mul_left hpow (hleast.le.trans hlt)
  exact (pow_lt_pow_iff_right₀ one_lt_two).mp hpow'

end Run

namespace LineSearch

/-! ## Bounds for searches -/

/-- With a limit on trials a search of any kind is over after as many answers. -/
theorem status_ne_search_of_limit {s₀ s : LineSearch α} {value slope step minStep maxStep : α}
    (hstart : s₀.start value slope step minStep maxStep = .ok s) {limit : ℕ}
    (hlimit : s₀.config.maxTrials = some limit) (hpos : 1 ≤ limit) (answers : Nat → α × α) :
    (s.answered answers limit).status ≠ .search := by
  obtain ⟨run, hrun, rfl⟩ := LineSearch.start_eq_ok_iff.mp hstart
  have htrials : run.trials = 0 := by
    obtain ⟨-, -, -, -, rfl⟩ := Run.start_eq_ok_iff.mp hrun
    rfl
  have hnext (k : Nat) (run₁ run₂ : Run α) (value slope : α)
      (h : run₁.trials = k ∧ k < limit)
      (hanswer : run₁.answer s₀.config value slope = .next run₂) :
      run₂.trials = k + 1 ∧ k + 1 < limit := by
    have hleft := Run.isExhausted_of_next hanswer
    rw [Run.isExhausted, hlimit, Option.any_some, decide_eq_false_iff_not, not_le, h.1] at hleft
    exact ⟨(Run.kept_of_next hanswer).2.2.trans (by rw [h.1]), hleft⟩
  rcases answered_cases (P := fun k run => run.trials = k ∧ k < limit)
    (s := { s₀ with state := .running run }) rfl ⟨htrials, hpos⟩ hnext answers limit with
    hended | ⟨run, -, -, hlt⟩
  · exact hended
  · exact absurd hlt (lt_irrefl limit)

variable [ExactScalar α]

/-- As long as a search that backtracks is not over, every answer has shortened its step. -/
theorem shrinks_answered {s : LineSearch α} {run : Run α} (hstate : s.state = .running run)
    (hcubic : s.config.lineSearch ≠ .cubic) {first least : ℝ} (hleast : 0 ≤ least)
    (hrun : run.Shrinks first least) (htrials : run.trials = 0) (answers : Nat → α × α) (k : ℕ) :
    (s.answered answers k).status ≠ .search ∨
      ∃ run', s.answered answers k = { s with state := .running run' } ∧
        run'.Shrinks first least ∧ run'.trials = k ∧ run'.frame = run.frame := by
  refine answered_cases
    (P := fun k run' => run'.Shrinks first least ∧ run'.trials = k ∧ run'.frame = run.frame)
    hstate ⟨hrun, htrials, rfl⟩ ?_ answers k
  rintro k run₁ run₂ value slope ⟨hshrinks, hcount, hframe⟩ hanswer
  obtain ⟨hkept, -, htrial⟩ := Run.kept_of_next hanswer
  exact ⟨(hshrinks.next hcubic hleast hanswer).2, by rw [htrial, hcount], hkept.trans hframe⟩

/-- A search that backtracks shortens its step with every answer that it goes on from, and the
binary logarithm of the range below its first step bounds the number of answers. -/
theorem shortens_answered {s₀ s : LineSearch α} (hcubic : s₀.config.lineSearch ≠ .cubic)
    {value slope step maxStep : α} {least : ℝ} (hleast : 0 < least)
    (hstart : s₀.start value slope step (ofReal least) maxStep = .ok s) :
    ∃ first : ℝ, s.step = ofReal first ∧ ∀ answers : Nat → α × α,
      (∀ k, (s.answered answers (k + 1)).status = .search →
        0.1 * (s.answered answers k).step ≤ (s.answered answers (k + 1)).step ∧
        (s.answered answers (k + 1)).step ≤ 0.5 * (s.answered answers k).step ∧
        (s₀.config.lineSearch = .armijo →
          (s.answered answers (k + 1)).step = 0.5 * (s.answered answers k).step) ∧
        ofReal least ≤ (s.answered answers (k + 1)).step) ∧
      (s.answered answers (⌊Real.logb 2 (first / least)⌋₊ + 1)).status ≠ .search := by
  obtain ⟨run, hrun, rfl⟩ := LineSearch.start_eq_ok_iff.mp hstart
  obtain ⟨first, hfirst, hle, hshrinks⟩ := Run.shrinks_start hrun
  obtain ⟨htrials, hframe⟩ : run.trials = 0 ∧ run.frame.minStep = ofReal least := by
    obtain ⟨-, -, -, -, rfl⟩ := Run.start_eq_ok_iff.mp hrun
    exact ⟨rfl, rfl⟩
  have hanswered (answers : Nat → α × α) (k : ℕ) :=
    shrinks_answered (s := { s₀ with state := .running run }) rfl hcubic hleast.le hshrinks
      htrials answers k
  refine ⟨first, hfirst, fun answers => ⟨fun k hsearch => ?_, ?_⟩⟩
  · rw [answered] at hsearch ⊢
    rcases hanswered answers k with hended | ⟨run₁, hrunning, hshrinks₁, -, hframe₁⟩
    · rw [iterate_ended _ hended] at hsearch
      exact absurd hsearch hended
    · rw [hrunning] at hsearch ⊢
      rcases iterate_cases (s := { s₀ with state := .running run₁ }) rfl (answers k).1
        (answers k).2 with hended | ⟨run₂, hanswer, hiterate⟩
      · exact absurd hsearch hended
      · obtain ⟨hshortens, -⟩ := hshrinks₁.next hcubic hleast.le hanswer
        have habove := hshortens.least
        rw [hframe₁, hframe] at habove
        rw [hiterate]
        exact ⟨hshortens.tenth, hshortens.half, hshortens.armijo, habove⟩
  · rcases hanswered answers (⌊Real.logb 2 (first / least)⌋₊ + 1) with
      hended | ⟨run₁, -, hshrinks₁, hcount, -⟩
    · exact hended
    · -- more halvings than the logarithm would lead below the least step
      have hlog := Nat.lt_floor_add_one (Real.logb 2 (first / least))
      have hratio : 0 < first / least := div_pos (hleast.trans_le hle) hleast
      rw [Real.logb_lt_iff_lt_rpow one_lt_two hratio, div_lt_iff₀ hleast, mul_comm] at hlog
      have hbound : first < least * 2 ^ (⌊Real.logb 2 (first / least)⌋₊ + 1) := by
        exact_mod_cast hlog
      have hlt := hshrinks₁.trials_lt hleast hbound
      exact absurd hlt (not_lt.mpr hcount.ge)

end LineSearch

/-! ## Evaluations of a search -/

namespace Solver

variable {n : Nat} {s s' : Solver α n} {c : Config α}

/-- The least step to consider is a fixed part of the first one, also where bounds cut the range
off. -/
theorem least_stepRange (c : Config α) (s : Solver α n) (p : Point α n) (h : Heading α n) :
    (s.stepRange c p h).least = (s.stepRange c p h).first * 1e-20 := by
  unfold stepRange
  dsimp only
  split
  · rfl
  · rfl

omit [Scalar α] in
/-- A run that has stopped asks for no evaluation. -/
theorem task_ne_computeFG_of_stopped {last : Option (Point α n)} {verdict : Verdict α}
    (h : s.phase = .stopped last verdict) : s.task ≠ .computeFG := by
  intro htask
  have hterminal := isTerminal_of_stopped h
  rw [htask] at hterminal
  cases hterminal

theorem task_ne_computeFG_of_settle {p : Point α n} {remark : Option StopReason}
    (h : s'.phase = heed remark (s.settle c p)) : s'.task ≠ .computeFG := by
  rcases s.heed_settle_cases c p remark with ⟨verdict, hstopped⟩ | ⟨haccepted, -⟩
  · exact task_ne_computeFG_of_stopped (h.trans hstopped)
  · rw [task_of_accepted (h.trans haccepted)]
    decide

variable [ExactScalar α]

/-- A search that has begun after a number of evaluations and has taken one for each of its
trials. -/
structure SearchesSince (spent : Nat) (s : Solver α n) (trial : Trial α n) : Prop where
  phase : s.phase = .searching trial
  evaluations : s.evaluations = spent + trial.run.trials
  shrinks : ∃ least, 0 < least ∧ trial.run.Shrinks (1e20 * least) least

/-- The range that a run gives to a search reaches down by a factor of `1e-20`. -/
theorem shrinks_of_stepRange {s : Solver α n} {p : Point α n} {h : Heading α n}
    {recent : List α} {value slope : α} {run : Run α}
    (hstart : Run.start c recent value slope (s.stepRange c p h).first
      (s.stepRange c p h).least (s.stepRange c p h).greatest = .ok run) :
    ∃ least, 0 < least ∧ run.Shrinks (1e20 * least) least := by
  obtain ⟨-, -, horder, hpos, hrun⟩ := Run.start_eq_ok_iff.mp hstart
  obtain ⟨t, ht, htpos⟩ := exists_of_pos hpos
  have hleast : (s.stepRange c p h).least = ofReal (t * 1e-20) := by
    rw [least_stepRange, ht, ofReal_mul, ofReal_ofScientific]
  obtain ⟨-, greatest, -, hgreatest, -⟩ := le_iff.mp horder
  rw [hleast, hgreatest, ofReal_le_ofReal] at horder
  refine ⟨t * 1e-20, by positivity, ?_⟩
  have hfirst : 1e20 * (t * 1e-20) = t := by ring
  rw [hfirst, hrun]
  refine ⟨hleast, min (max t (t * 1e-20)) greatest, ?_, le_min (le_max_right _ _) horder, ?_⟩
  · rw [ht, hleast, hgreatest, larger_ofReal, smaller_ofReal]
  · have hle : t * 1e-20 ≤ t := by
      refine mul_le_of_le_one_right htpos.le ?_
      norm_num
    rw [pow_zero, mul_one, max_eq_left hle]
    exact min_le_left _ _

/-- A search that backtracks within such a range has less than 67 trials. -/
theorem SearchesSince.trials_lt {spent : Nat} {trial : Trial α n}
    (h : s.SearchesSince spent trial) : trial.run.trials < 67 := by
  obtain ⟨least, hleast, hshrinks⟩ := h.shrinks
  refine hshrinks.trials_lt hleast ?_
  rw [mul_comm]
  gcongr
  norm_num

/-- A run that has left an accepted point after a number of evaluations, and has not come to
another search since. -/
structure WithinSearch (spent : Nat) (s : Solver α n) : Prop where
  evaluations : s.evaluations ≤ spent + 67
  searches : s.task = .computeFG → ∃ trial, s.SearchesSince spent trial

theorem WithinSearch.of_ne {spent : Nat} (hcount : s.evaluations ≤ spent + 67)
    (htask : s.task ≠ .computeFG) : s.WithinSearch spent :=
  ⟨hcount, fun hcompute => absurd hcompute htask⟩

variable {x g x' : Vector α n} {f : α}

/-- A departure takes no evaluation, and a search that it begins has taken none. -/
theorem Transition.withinSearch_of_accepted {p : Point α n} (hphase : s.phase = .accepted p)
    (h : Transition c s x f g s' x') : s'.WithinSearch s.evaluations := by
  have hle : s.evaluations ≤ s.evaluations + 67 := Nat.le_add_right _ _
  cases h with
  | search q range run hs hslope hleft hrange hstart =>
    refine ⟨hle, fun _ => ⟨_, rfl, ?_, shrinks_of_stepRange (hrange ▸ hstart)⟩⟩
    obtain ⟨-, -, -, -, rfl⟩ := Run.start_eq_ok_iff.mp hstart
    rfl
  | notDescent | spentAtPoint | refused => exact .of_ne hle (task_ne_computeFG_of_stopped rfl)
  | project hs | flawAtFirst _ hs | first hs | flawAtTrial _ _ hs | spentAtTrial _ _ hs
  | retry _ _ hs | step _ _ hs | searchFailed _ _ _ hs | idle _ _ hs =>
    rw [hphase] at hs
    cases hs

/-- An answer to a search takes one evaluation, and the search goes on as before or is over. -/
theorem SearchesSince.next {spent : Nat} {trial : Trial α n} (h : s.SearchesSince spent trial)
    (hcubic : c.lineSearch ≠ .cubic) (htrans : Transition c s x f g s' x') :
    s'.WithinSearch spent := by
  have hle : s.evaluations + 1 ≤ spent + 67 := by
    have := h.trials_lt
    have := h.evaluations
    omega
  cases htrans with
  | retry trial₁ run hs hflaw hanswer hleft =>
    rw [h.phase] at hs
    cases hs
    refine ⟨hle, fun _ => ⟨_, rfl, ?_, ?_⟩⟩
    · show s.evaluations + 1 = spent + run.trials
      rw [(Run.kept_of_next hanswer).2.2, h.evaluations, Nat.add_assoc]
    · obtain ⟨least, hleast, hshrinks⟩ := h.shrinks
      exact ⟨least, hleast, (hshrinks.next hcubic hleast.le hanswer).2⟩
  | step => exact .of_ne hle (task_ne_computeFG_of_settle rfl)
  | flawAtTrial | spentAtTrial | searchFailed =>
    exact .of_ne hle (task_ne_computeFG_of_stopped rfl)
  | project hs | flawAtFirst _ hs | first hs | notDescent _ hs | spentAtPoint _ hs
  | refused _ _ _ hs | search _ _ _ hs | idle _ _ hs =>
    rw [h.phase] at hs
    cases hs

end Solver

namespace Optimizer

variable {n : Nat} [ExactScalar α]

/-- From an accepted point on, as long as evaluations are asked for, these are the trials of one
search. -/
theorem withinSearch_after {o : Optimizer α n} (hcubic : o.config.lineSearch ≠ .cubic)
    (htask : o.task = .newX) (calls : List (Call α))
    (hcompute : ∀ i, 0 < i → i < calls.length → (o.after (calls.take i)).task = .computeFG) :
    ∃ s, (o.after calls).body = .ok s ∧ s.WithinSearch o.evaluations := by
  induction calls using List.reverseRecOn with
  | nil =>
    obtain ⟨s, hs⟩ := exists_body_of_isTerminal (o := o) (by rw [htask]; rfl)
    refine ⟨s, hs, .of_ne ?_ ?_⟩
    · rw [evaluations_of_body hs]
      exact Nat.le_add_right _ _
    · rw [← task_of_body hs, htask]
      decide
  | append_singleton calls call ih =>
    obtain ⟨s, hs, hwithin⟩ := ih fun i hpos hi => by
      have := hcompute i hpos (by rw [List.length_append]; omega)
      rwa [List.take_append_of_le_length hi.le] at this
    rw [after_concat]
    rcases (o.after calls).exchange_cases call with heq | ⟨s₁, s', x, g, x', hs₁, -, -, heq, htrans⟩
    · rw [heq]
      exact ⟨s, hs, hwithin⟩
    · rw [hs] at hs₁
      cases hs₁
      rw [config_after] at htrans
      refine ⟨s', by rw [heq, body_proceed], ?_⟩
      by_cases hfirst : 0 < calls.length
      · have hcomputes := hcompute calls.length hfirst (by simp)
        rw [List.take_left, task_of_body hs] at hcomputes
        obtain ⟨trial, htrial⟩ := hwithin.searches hcomputes
        exact htrial.next hcubic htrans
      · obtain rfl : calls = [] := List.length_eq_zero_iff.mp (Nat.eq_zero_of_not_pos hfirst)
        rw [after_nil] at hs
        rw [task_of_body hs] at htask
        obtain ⟨p, hphase⟩ := Solver.exists_accepted_of_newX htask
        rw [evaluations_of_body hs]
        exact htrans.withinSearch_of_accepted hphase

/-- **Backtracking is bounded.**  In exact arithmetic, and whatever it is told:

* a search that backtracks, started with a positive least step, replaces its step by one between a
  tenth and a half of it with every answer that it goes on from, by exactly half of it where it is
  to halve, and never by one below the least step; so it is over after no more answers than one and
  the binary logarithm of the ratio of its first step and the least one;
* the least step that a run gives to a search is `1e-20` of the first one, also where bounds cut
  the range off, and between an accepted point and the next one, or the end of the run, an
  optimizer that backtracks takes no more than 67 evaluations;
* with a limit on trials a search of any kind is over after as many answers. -/
theorem backtracking_is_bounded :
    (∀ (s₀ s : LineSearch α) (value slope step maxStep : α) (least : ℝ),
      s₀.config.lineSearch ≠ .cubic → 0 < least →
      s₀.start value slope step (ofReal least) maxStep = .ok s →
      ∃ first : ℝ, s.step = ofReal first ∧ ∀ answers : Nat → α × α,
        (∀ k, (s.answered answers (k + 1)).status = .search →
          0.1 * (s.answered answers k).step ≤ (s.answered answers (k + 1)).step ∧
          (s.answered answers (k + 1)).step ≤ 0.5 * (s.answered answers k).step ∧
          (s₀.config.lineSearch = .armijo →
            (s.answered answers (k + 1)).step = 0.5 * (s.answered answers k).step) ∧
          ofReal least ≤ (s.answered answers (k + 1)).step) ∧
        (s.answered answers (⌊Real.logb 2 (first / least)⌋₊ + 1)).status ≠ .search) ∧
    (∀ (c : Config α) (s : Solver α n) (p : Point α n) (h : Solver.Heading α n),
      (s.stepRange c p h).least = (s.stepRange c p h).first * 1e-20) ∧
    (∀ (o : Optimizer α n) (calls : List (Call α)), o.config.lineSearch ≠ .cubic →
      o.task = .newX →
      (∀ i, 0 < i → i < calls.length → (o.after (calls.take i)).task = .computeFG) →
      (o.after calls).evaluations ≤ o.evaluations + 67) ∧
    (∀ (s₀ s : LineSearch α) (value slope step minStep maxStep : α) (limit : ℕ),
      s₀.config.maxTrials = some limit → 1 ≤ limit →
      s₀.start value slope step minStep maxStep = .ok s →
      ∀ answers : Nat → α × α, (s.answered answers limit).status ≠ .search) := by
  refine ⟨?_, Solver.least_stepRange, ?_, ?_⟩
  · intro s₀ s value slope step maxStep least hcubic hleast hstart
    exact LineSearch.shortens_answered hcubic hleast hstart
  · intro o calls hcubic htask hcompute
    obtain ⟨s, hs, hwithin⟩ := withinSearch_after hcubic htask calls hcompute
    rw [evaluations_of_body hs]
    exact hwithin.evaluations
  · intro s₀ s value slope step minStep maxStep limit hlimit hpos hstart answers
    exact LineSearch.status_ne_search_of_limit hstart hlimit hpos answers

/-- The run whose first point has the slope one asks for an evaluation when it has left it. -/
theorem slope_one_searches :
    ((start #v[(1 : ℝ)] {} {}).after [⟨#[1], 1, #[1]⟩, ⟨#[1], 1, #[1]⟩]).task = .computeFG := by
  obtain ⟨htask, hleft⟩ := slope_one_waits
  obtain ⟨s, trial, hs, hphase, -⟩ :=
    exists_searching [⟨#[1], 1, #[1]⟩] htask hleft #v[1] 1 #v[1]
  exact (task_of_body hs).trans (Solver.task_of_searching hphase)

/-- A search that halves its step, with room for three halvings. -/
noncomputable def halvingSearch : LineSearch ℝ where
  config := { lineSearch := .armijo }

/-- A search that brackets, with two trials. -/
noncomputable def twoTrials : LineSearch ℝ where
  config := { lineSearch := .cubic, maxTrials := some 2 }

/-- The bounds for searches that never find a lower value, and for the search of the run whose
first point has the slope one. -/
theorem high_values_within_bounds :
    (∃ s, halvingSearch.start 0 (-1) 8 1 8 = .ok s ∧
      (s.answered (fun _ => (1, 0)) 4).status ≠ .search) ∧
    (∃ o : Optimizer ℝ 1, o = (start #v[1] {} {}).after [⟨#[1], 1, #[1]⟩] ∧ o.task = .newX ∧
      (o.after [⟨#[1], 1, #[1]⟩]).task = .computeFG ∧
      (o.after [⟨#[1], 1, #[1]⟩, ⟨#[2], 3, #[1]⟩]).evaluations ≤ o.evaluations + 67) ∧
    (∃ s, twoTrials.start 0 (-1) 8 1 8 = .ok s ∧
      (s.answered (fun _ => (1, 0)) 2).status ≠ .search) := by
  obtain ⟨hshortens, -, hevaluations, hlimit⟩ := backtracking_is_bounded (α := ℝ) (n := 1)
  refine ⟨?_, ?_, ?_⟩
  · obtain ⟨s, hs, hstep⟩ : ∃ s, halvingSearch.start 0 (-1) 8 1 8 = .ok s ∧ s.step = 8 := by
      refine ⟨_, LineSearch.start_eq_ok_iff.mpr ⟨_, Run.start_eq_ok_iff.mpr
        ⟨neg_one_lt_zero, zero_le_one, by norm_num, by norm_num, rfl⟩, rfl⟩, ?_⟩
      show smaller (larger (ofReal 8) (ofReal 1)) (ofReal 8) = (ofReal 8 : ℝ)
      rw [larger_ofReal, smaller_ofReal]
      norm_num
    obtain ⟨first, hfirst, hanswered⟩ :=
      hshortens halvingSearch s 0 (-1) 8 8 1 (by decide) one_pos hs
    refine ⟨s, hs, ?_⟩
    obtain rfl : first = 8 := hfirst.symm.trans hstep
    have hlog : Real.logb 2 (8 / 1) = (3 : ℕ) := by
      have height : (8 / 1 : ℝ) = 2 ^ 3 := by norm_num
      rw [height, Real.logb_pow, Real.logb_self_eq_one one_lt_two, mul_one]
    have hended := (hanswered fun _ => (1, 0)).2
    rwa [hlog, Nat.floor_natCast] at hended
  · obtain ⟨htask, -⟩ := slope_one_waits
    refine ⟨_, rfl, htask, slope_one_searches, hevaluations _ _ ?_ htask ?_⟩
    · rw [config_after]
      decide
    intro i hpos hi
    obtain rfl : i = 1 := by
      simp only [List.length_cons, List.length_nil] at hi
      omega
    exact slope_one_searches
  · obtain ⟨s, hs⟩ : ∃ s, twoTrials.start 0 (-1) 8 1 8 = .ok s :=
      ⟨_, LineSearch.start_eq_ok_iff.mpr ⟨_, Run.start_eq_ok_iff.mpr
        ⟨neg_one_lt_zero, zero_le_one, by norm_num, by norm_num, rfl⟩, rfl⟩⟩
    exact ⟨s, hs, hlimit twoTrials s 0 (-1) 8 1 8 2 rfl (by decide) hs _⟩

end Optimizer

end Descent
