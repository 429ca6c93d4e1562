/-
# What a line search accepts

Whatever a line search is asked for, in any order, it accepts steps by one rule: the value at the
step lies on or below the line of sufficient decrease, which starts from the value at step zero,
or for the nonmonotone search from the greatest of that value and the last values recorded.  The
rule is stated on the requests alone, as a chronicle of them, and not on what the search remembers.

* `LineSearch.Request`, `LineSearch.served` : a line search under a series of requests;
* `Chronicle`, `Opening` : what an observer writes down of them;
* `Opening.Decreases` : the rule;
* `LineSearch.Follows` : a line search agrees with its chronicle;
* `Opening.Describes.of_accepted`, `Opening.Describes.of_decreases` : the answers of a run;
* `LineSearch.accepts_by_decrease` : the rule holds of every answer.
-/
import Mathlib
import Descent.Proofs.Bracketing
import Descent.Proofs.Decrease
import Descent.Proofs.SearchEnds

namespace Descent

open Scalar ExactScalar StrictScalar

variable {α : Type}

/-! ## Requests -/

/-- What a line search can be asked for; the answers to a search may be undefined. -/
inductive LineSearch.Request (α : Type) where
  /-- Take up the value at an accepted point. -/
  | record (value : ℝ)
  /-- Start a search. -/
  | start (value slope step minStep maxStep : ℝ)
  /-- Take the value and slope at the current step. -/
  | iterate (value slope : α)

/-- The start of a search, and how many answers it has had. -/
structure Opening where
  /-- The value at step zero. -/
  value : ℝ
  /-- The slope at step zero. -/
  slope : ℝ
  /-- The values recorded before, newest first. -/
  recorded : List ℝ
  /-- The number of answers since. -/
  answers : ℕ

/-- What an observer writes down of a series of requests. -/
structure Chronicle where
  /-- The values recorded, newest first. -/
  recorded : List ℝ := []
  /-- The last start that was not refused. -/
  opening? : Option Opening := none

namespace Chronicle

open LineSearch

/-- The chronicle after a request.  A start is refused along a slope that is not negative, and
where no positive step is admissible. -/
noncomputable def note (k : Chronicle) : Request α → Chronicle
  | .record value => { k with recorded := value :: k.recorded }
  | .start value slope step minStep maxStep =>
    if slope < 0 ∧ 0 ≤ minStep ∧ minStep ≤ maxStep ∧ 0 < step then
      { k with opening? := some { value, slope, recorded := k.recorded, answers := 0 } }
    else k
  | .iterate _ _ =>
    { k with opening? := k.opening?.map fun o => { o with answers := o.answers + 1 } }

/-- The chronicle of a series of requests, the first one first. -/
noncomputable def ofRequests (requests : List (Request α)) : Chronicle :=
  requests.foldl note {}

end Chronicle

variable [Scalar α] [ExactScalar α]

namespace LineSearch

/-- The line search after a request; a start that is refused changes nothing. -/
def serve (s : LineSearch α) : Request α → LineSearch α
  | .record value => s.record (ofReal value)
  | .start value slope step minStep maxStep =>
    match s.start (ofReal value) (ofReal slope) (ofReal step) (ofReal minStep) (ofReal maxStep) with
    | .ok started => started
    | .error _ => s
  | .iterate value slope => s.iterate value slope

/-- The line search after a series of requests, the first one first. -/
def served (s : LineSearch α) (requests : List (Request α)) : LineSearch α :=
  requests.foldl serve s

end LineSearch

/-! ## The rule -/

namespace Opening

/-- The value that decrease is measured from: the one at step zero, and for the nonmonotone search
the greatest of that and the last values recorded, as many as its window holds. -/
noncomputable def reference (o : Opening) (c : Config α) : ℝ :=
  if c.lineSearch = .nonmonotone then (o.recorded.take c.window).foldr max o.value else o.value

/-- The value at a step is sufficiently far below the reference. -/
def Decreases (o : Opening) (c : Config α) (step value : α) : Prop :=
  value ≤ ofReal (o.reference c) + c.sftol * step * ofReal o.slope

/-- What an opening says of the run that it has begun. -/
structure Describes (o : Opening) (c : Config α) (run : Run α) : Prop where
  value : run.frame.value = ofReal o.value
  slope : run.frame.slope = ofReal o.slope
  descends : o.slope < 0
  reference : run.reference = ofReal (o.reference c)
  trials : run.trials = o.answers

variable {o : Opening} {c : Config α} {run run' : Run α} {value slope : α}

/-- The greatest of some real numbers. -/
theorem greatestOf_ofReal (v : ℝ) (recent : List ℝ) :
    greatestOf (ofReal v : α) (recent.map ofReal) = ofReal (recent.foldr max v) := by
  induction recent with
  | nil => rfl
  | cons x recent ih =>
    have hcons : greatestOf (ofReal v : α) ((x :: recent).map ofReal) =
        if greatestOf (ofReal v : α) (recent.map ofReal) < ofReal x then ofReal x
        else greatestOf (ofReal v) (recent.map ofReal) := rfl
    rw [hcons, ih, List.foldr_cons]
    rcases lt_or_ge (recent.foldr max v) x with h | h
    · rw [if_pos (ofReal_lt_ofReal.mpr h), max_eq_left h.le]
    · rw [if_neg (by rwa [ofReal_lt_ofReal, not_lt]), max_eq_right h]

omit [ExactScalar α] in
theorem reference_of_cubic (hcubic : c.lineSearch = .cubic) : o.reference c = o.value := by
  rw [reference, hcubic, if_neg (by decide)]

/-- A run goes on as its opening says. -/
theorem Describes.next (h : o.Describes c run) (hanswer : run.answer c value slope = .next run') :
    ({ o with answers := o.answers + 1 } : Opening).Describes c run' := by
  obtain ⟨hframe, hreference, htrials⟩ := Run.kept_of_next hanswer
  refine ⟨?_, ?_, h.descends, ?_, ?_⟩
  · rw [hframe, h.value]
  · rw [hframe, h.slope]
  · rw [hreference, h.reference]
    rfl
  · rw [htrials, h.trials]

/-- The test of the searches that backtrack is the rule. -/
theorem Describes.hasDecreased_iff (h : o.Describes c run) :
    run.hasDecreased c value = true ↔ o.Decreases c run.step value := by
  rw [Run.hasDecreased, decide_eq_true_eq, Decreases, h.reference, h.slope]

variable [StrictScalar α]

/-- The test that the search that brackets makes in a round is the rule. -/
theorem Describes.le_target_iff (h : o.Describes c run) (hcubic : c.lineSearch = .cubic) :
    value ≤ run.frame.value + run.step * (c.sftol * run.frame.slope) ↔
      o.Decreases c run.step value := by
  have hproduct : run.step * (c.sftol * ofReal o.slope) = c.sftol * run.step * ofReal o.slope := by
    ac_rfl
  rw [Decreases, reference_of_cubic hcubic, h.value, h.slope, hproduct]

theorem Describes.le_stop_iff (h : o.Describes c run) (hcubic : c.lineSearch = .cubic) :
    value ≤ run.frame.value + run.step * c.sftol * run.frame.slope ↔
      o.Decreases c run.step value := by
  have hproduct : run.step * c.sftol * ofReal o.slope = c.sftol * run.step * ofReal o.slope := by
    ac_rfl
  rw [Decreases, reference_of_cubic hcubic, h.value, h.slope, hproduct]

/-- **Accepted steps.**  Whatever is accepted has decreased by the rule.  Only the search that
brackets remarks on what could not be met, and what it accepts without a remark has a small
slope. -/
theorem Describes.of_accepted (h : o.Describes c run) {remark : Option StopReason}
    (hanswer : run.answer c value slope = .accepted remark) :
    o.Decreases c run.step value ∧ (remark ≠ none → c.lineSearch = .cubic) ∧
      (c.lineSearch = .cubic → remark = none →
        Scalar.abs slope ≤ c.curvatureTolerance * ofReal |o.slope|) := by
  by_cases hcubic : c.lineSearch = .cubic
  · rw [Run.answer, if_pos hcubic] at hanswer
    unfold Run.enclose at hanswer
    dsimp only at hanswer
    split at hanswer
    · next hround =>
      obtain ⟨hvalue, hslope⟩ := Bracket.meets_of_converged hround
      refine ⟨(h.le_target_iff hcubic).mp hvalue, fun _ => hcubic, fun _ _ => ?_⟩
      rwa [h.slope, ← ofReal_neg, ← abs_of_neg h.descends] at hslope
    · split at hanswer
      · next hvalue =>
        cases hanswer
        exact ⟨(h.le_stop_iff hcubic).mp hvalue, fun _ => hcubic, fun _ hremark => by cases hremark⟩
      · cases hanswer
    · split at hanswer
      · cases hanswer
      · cases hanswer
  · rw [Run.answer, if_neg hcubic, Run.backtrack_eq_accepted_iff] at hanswer
    obtain ⟨rfl, hdecreased⟩ := hanswer
    exact ⟨h.hasDecreased_iff.mp hdecreased, fun hremark => absurd rfl hremark,
      fun h => absurd h hcubic⟩

/-- **Steps that decrease.**  Where the value has decreased by the rule, a search that backtracks
accepts the step, and the one that brackets fails for want of trials at most. -/
theorem Describes.of_decreases (h : o.Describes c run) (hvalue : o.Decreases c run.step value) :
    (c.lineSearch ≠ .cubic → run.answer c value slope = .accepted none) ∧
      (c.lineSearch = .cubic → ∀ step reason, run.answer c value slope = .failed step reason →
        reason = .tooManyTrials ∧ Run.isExhausted c (run.trials + 1) = true) := by
  constructor
  · intro hcubic
    rw [Run.answer, if_neg hcubic, Run.backtrack_eq_accepted_iff]
    exact ⟨rfl, h.hasDecreased_iff.mpr hvalue⟩
  · intro hcubic step reason hanswer
    rw [Run.answer, if_pos hcubic] at hanswer
    unfold Run.enclose at hanswer
    dsimp only at hanswer
    split at hanswer
    · cases hanswer
    · rw [if_pos ((h.le_stop_iff hcubic).mpr hvalue)] at hanswer
      cases hanswer
    · split at hanswer
      · next hexhausted =>
        cases hanswer
        exact ⟨rfl, hexhausted⟩
      · cases hanswer

end Opening

namespace LineSearch

/-! ## Line searches and their chronicles -/

variable {c : Config α} {k : Chronicle} {s : LineSearch α}

/-- A line search agrees with its chronicle: it remembers the last values recorded, and its run is
the one that was opened last. -/
structure Follows (c : Config α) (k : Chronicle) (s : LineSearch α) : Prop where
  config : s.config = c
  recent : c.lineSearch = .nonmonotone → s.recent = (k.recorded.take c.window).map ofReal
  state : ∀ run, s.state = .running run → ∃ o, k.opening? = some o ∧ o.Describes c run

omit [ExactScalar α] in
/-- Answers leave the settings and the recorded values as they are. -/
theorem iterate_keeps (s : LineSearch α) (value slope : α) :
    (s.iterate value slope).config = s.config ∧ (s.iterate value slope).recent = s.recent := by
  unfold iterate
  split
  · exact ⟨rfl, rfl⟩
  · split <;> exact ⟨rfl, rfl⟩

omit [ExactScalar α] in
/-- A search that goes on after an answer did so before. -/
theorem exists_of_iterate {value slope : α} {run' : Run α}
    (h : (s.iterate value slope).state = .running run') :
    ∃ run, s.state = .running run ∧ run.answer s.config value slope = .next run' := by
  cases hstate : s.state with
  | ended step ending =>
    rw [iterate, hstate] at h
    dsimp only at h
    rw [hstate] at h
    cases h
  | running run =>
    refine ⟨run, rfl, ?_⟩
    rcases iterate_cases hstate value slope with hended | ⟨run'', hanswer, hiterate⟩
    · rw [status, h] at hended
      exact absurd rfl hended
    · rw [hiterate] at h
      cases h
      exact hanswer

/-- A search that is started agrees with its opening. -/
theorem Follows.describes_start (h : Follows c k s) {value slope step minStep maxStep : ℝ}
    {run : Run α}
    (hrun : Run.start s.config s.recent (ofReal value) (ofReal slope) (ofReal step)
      (ofReal minStep) (ofReal maxStep) = .ok run) :
    (⟨value, slope, k.recorded, 0⟩ : Opening).Describes c run := by
  obtain ⟨hslope, -, -, -, rfl⟩ := Run.start_eq_ok_iff.mp hrun
  refine ⟨rfl, rfl, ofReal_lt_zero.mp hslope, ?_, rfl⟩
  rw [Run.referenceFor, Opening.reference, h.config]
  split
  · next hkind => rw [h.recent hkind, Opening.greatestOf_ofReal]
  · rfl

/-- A line search goes on agreeing with its chronicle. -/
theorem Follows.serve (hwindow : 0 < c.window) (h : Follows c k s) (request : Request α) :
    Follows c (k.note request) (s.serve request) := by
  cases request with
  | record value =>
    refine ⟨h.config, fun hkind => ?_, h.state⟩
    show remember s.config (ofReal value) s.recent = _
    rw [remember, h.config, if_pos hkind, h.recent hkind, pushRecent_map,
      pushRecent_take hwindow]
    rfl
  | start value slope step minStep maxStep =>
    have hiff : (∃ run, Run.start s.config s.recent (ofReal value) (ofReal slope) (ofReal step)
        (ofReal minStep) (ofReal maxStep) = .ok run) ↔
          slope < 0 ∧ 0 ≤ minStep ∧ minStep ≤ maxStep ∧ 0 < step := by
      simp only [Run.start_eq_ok_iff, ofReal_lt_zero, zero_le_ofReal, ofReal_le_ofReal,
        zero_lt_ofReal, exists_and_left, exists_eq, and_true]
    simp only [Chronicle.note, LineSearch.serve]
    cases hstart : s.start (ofReal value) (ofReal slope) (ofReal step) (ofReal minStep)
      (ofReal maxStep) with
    | ok started =>
      obtain ⟨run, hrun, rfl⟩ := LineSearch.start_eq_ok_iff.mp hstart
      rw [if_pos (hiff.mp ⟨run, hrun⟩)]
      refine ⟨h.config, h.recent, ?_⟩
      rintro run' ⟨⟩
      exact ⟨_, rfl, h.describes_start hrun⟩
    | error refusal =>
      rw [if_neg]
      · exact h
      · intro hadmissible
        obtain ⟨run, hrun⟩ := hiff.mpr hadmissible
        rw [LineSearch.start_eq_ok_iff.mpr ⟨run, hrun, rfl⟩] at hstart
        cases hstart
  | iterate value slope =>
    obtain ⟨hconfig, hrecent⟩ := s.iterate_keeps value slope
    refine ⟨hconfig.trans h.config, fun hkind => hrecent.trans (h.recent hkind), ?_⟩
    intro run' hrun'
    obtain ⟨run, hrun, hanswer⟩ := exists_of_iterate hrun'
    obtain ⟨o, ho, hdescribes⟩ := h.state run hrun
    rw [h.config] at hanswer
    refine ⟨{ o with answers := o.answers + 1 }, ?_, hdescribes.next hanswer⟩
    rw [Chronicle.note, ho]
    rfl

/-- A line search agrees with the chronicle of all requests. -/
theorem follows_served (hwindow : 0 < c.window) (requests : List (Request α)) :
    Follows c (Chronicle.ofRequests requests)
      (({ config := c } : LineSearch α).served requests) := by
  induction requests using List.reverseRecOn with
  | nil =>
    refine ⟨rfl, fun _ => ?_, ?_⟩
    · show ([] : List α) = (List.take c.window []).map ofReal
      rw [List.take_nil, List.map_nil]
    · rintro run ⟨⟩
  | append_singleton requests request ih =>
    rw [Chronicle.ofRequests, served, List.foldl_concat, List.foldl_concat]
    exact ih.serve hwindow request

omit [ExactScalar α] in
/-- A search that is not over has a run. -/
theorem exists_running (h : s.status = .search) : ∃ run, s.state = .running run := by
  cases hstate : s.state with
  | running run => exact ⟨run, rfl⟩
  | ended step ending =>
    rw [status, hstate] at h
    cases ending <;> cases h

omit [ExactScalar α] in
/-- A search that has ended without failure has accepted its step, with a remark if and only if it
warns. -/
theorem exists_accepted_of_take {run : Run α} {answer : Answer α}
    (h : (s.take run answer).status = .converged ∨ (s.take run answer).status = .warning) :
    ∃ remark, answer = .accepted remark ∧ (s.take run answer).step = run.step ∧
      ((s.take run answer).status = .converged → remark = none) ∧
      ((s.take run answer).status = .warning → remark ≠ none) := by
  cases answer with
  | next run' => exact h.elim (fun h => by cases h) (fun h => by cases h)
  | failed step reason => exact h.elim (fun h => by cases h) (fun h => by cases h)
  | accepted remark =>
    cases remark with
    | none => exact ⟨none, rfl, rfl, fun _ => rfl, fun hwarning => by cases hwarning⟩
    | some reason =>
      refine ⟨some reason, rfl, rfl, fun hconverged => ?_, fun _ => Option.some_ne_none reason⟩
      cases hconverged

omit [ExactScalar α] in
/-- A search that has failed says why. -/
theorem exists_failed_of_take {run : Run α} {answer : Answer α}
    (h : (s.take run answer).status = .failure) :
    ∃ step reason, answer = .failed step reason ∧ (s.take run answer).reason? = some reason := by
  cases answer with
  | next run' => cases h
  | failed step reason => exact ⟨step, reason, rfl, rfl⟩
  | accepted remark =>
    cases remark with
    | none => cases h
    | some reason => cases h

omit [ExactScalar α] in
/-- Nothing that a search is told after its end changes it. -/
theorem foldl_iterate_ended (h : s.status ≠ .search) (answers : List (α × α)) :
    answers.foldl (fun s answer => s.iterate answer.1 answer.2) s = s := by
  induction answers with
  | nil => rfl
  | cons answer answers ih => rw [List.foldl_cons, iterate_ended s h, ih]

/-- **What a line search accepts.**  In exact arithmetic a line search has been asked to record
values, to start searches and to take answers, in any order, and is told another value and slope.

* If that ends its search without failure, the step is still the one that the answer was about, and
  the value has decreased by the rule; the search that brackets has then converged only if the
  slope is small, and no other search ends with a warning.
* If the value has decreased by the rule, the searches that backtrack have converged, and the one
  that brackets has not failed, except because its limit on trials is reached.
* Once the search is over, further answers change nothing. -/
theorem accepts_by_decrease [StrictScalar α] (c : Config α) (hwindow : 0 < c.window)
    (requests : List (Request α)) (value slope : α) :
    let s := ({ config := c } : LineSearch α).served requests
    let s' := s.iterate value slope
    (s.status = .search → ∃ o, (Chronicle.ofRequests requests).opening? = some o ∧
      (s'.status = .converged ∨ s'.status = .warning →
        s'.step = s.step ∧ o.Decreases c s.step value) ∧
      (c.lineSearch = .cubic → s'.status = .converged →
        Scalar.abs slope ≤ c.curvatureTolerance * ofReal |o.slope|) ∧
      (s'.status = .warning → c.lineSearch = .cubic) ∧
      (c.lineSearch ≠ .cubic → o.Decreases c s.step value → s'.status = .converged) ∧
      (c.lineSearch = .cubic → o.Decreases c s.step value → s'.status = .failure →
        s'.reason? = some .tooManyTrials ∧
          ∃ limit, c.maxTrials = some limit ∧ limit ≤ o.answers + 1)) ∧
    (s.status ≠ .search → ∀ answers : List (α × α),
      answers.foldl (fun s answer => s.iterate answer.1 answer.2) s = s) := by
  intro s s'
  refine ⟨fun hsearch => ?_, fun hended answers => foldl_iterate_ended hended answers⟩
  have hfollows : Follows c _ s := follows_served hwindow requests
  obtain ⟨run, hrun⟩ := exists_running hsearch
  obtain ⟨o, ho, hdescribes⟩ := hfollows.state run hrun
  have hstep : s.step = run.step := by rw [step, hrun]
  have hs' : s' = s.take run (run.answer c value slope) := by
    rw [← hfollows.config]
    exact iterate_of_running hrun value slope
  rw [hs', hstep]
  refine ⟨o, ho, fun hends => ?_, fun hcubic hconverged => ?_, fun hwarning => ?_,
    fun hcubic hvalue => ?_, fun hcubic hvalue hfailure => ?_⟩
  · obtain ⟨remark, hanswer, hkept, -⟩ := exists_accepted_of_take hends
    exact ⟨hkept, (hdescribes.of_accepted hanswer).1⟩
  · obtain ⟨remark, hanswer, -, hnone, -⟩ := exists_accepted_of_take (.inl hconverged)
    exact (hdescribes.of_accepted hanswer).2.2 hcubic (hnone hconverged)
  · obtain ⟨remark, hanswer, -, -, hsome⟩ := exists_accepted_of_take (.inr hwarning)
    exact (hdescribes.of_accepted hanswer).2.1 (hsome hwarning)
  · rw [(hdescribes.of_decreases hvalue).1 hcubic]
    rfl
  · obtain ⟨step, reason, hanswer, hreason⟩ := exists_failed_of_take hfailure
    obtain ⟨rfl, hexhausted⟩ := (hdescribes.of_decreases hvalue).2 hcubic step reason hanswer
    rw [Run.isExhausted, Option.any_eq_true] at hexhausted
    obtain ⟨limit, hlimit, hle⟩ := hexhausted
    rw [decide_eq_true_eq, hdescribes.trials] at hle
    exact ⟨hreason, limit, hlimit, hle⟩

/-- Settings for a search that looks back on two values. -/
noncomputable def lookingBack : Config ℝ where
  lineSearch := .nonmonotone
  window := 2

/-- The requests to record two values and to start a search from the lower one. -/
def lowStart : List (Request ℝ) :=
  [.record 1, .record 0, .start 0 (-1) 1 0 1]

/-- The search that looks back accepts a value that is higher than the one at step zero. -/
theorem lookingBack_accepts_higher_value :
    (({ config := lookingBack } : LineSearch ℝ).served lowStart).status = .search ∧
      ((({ config := lookingBack } : LineSearch ℝ).served lowStart).iterate (1 / 2) 0).status =
        .converged := by
  obtain ⟨run, hrun, hserved⟩ : ∃ run : Run ℝ, run.step = 1 ∧
      ({ config := lookingBack } : LineSearch ℝ).served lowStart =
        { config := lookingBack, recent := [0, 1], state := .running run } := by
    let recorded : LineSearch ℝ := { config := lookingBack, recent := [0, 1] }
    obtain ⟨run, hrun⟩ : ∃ run, Run.start lookingBack [0, 1] (0 : ℝ) (-1) 1 0 1 = .ok run :=
      ⟨_, Run.start_eq_ok_iff.mpr ⟨neg_one_lt_zero, le_rfl, zero_le_one, one_pos, rfl⟩⟩
    have hstart : recorded.start 0 (-1) 1 0 1 = .ok { recorded with state := .running run } :=
      LineSearch.start_eq_ok_iff.mpr ⟨run, hrun, rfl⟩
    refine ⟨run, ?_, ?_⟩
    · obtain ⟨-, -, -, -, rfl⟩ := Run.start_eq_ok_iff.mp hrun
      show smaller (larger (ofReal 1) (ofReal 0)) (ofReal 1) = (ofReal 1 : ℝ)
      rw [larger_ofReal, smaller_ofReal]
      norm_num
    · show recorded.serve (.start 0 (-1) 1 0 1) = _
      unfold serve
      dsimp only [ofReal, id]
      rw [hstart]
  have hopening : (Chronicle.ofRequests lowStart).opening? = some ⟨0, -1, [0, 1], 0⟩ := by
    simp [Chronicle.ofRequests, lowStart, Chronicle.note]
  obtain ⟨hsearch, -⟩ := accepts_by_decrease lookingBack two_pos lowStart (1 / 2) 0
  rw [hserved] at hsearch ⊢
  obtain ⟨o, ho, -, -, -, hconverges, -⟩ := hsearch rfl
  rw [hopening] at ho
  cases ho
  refine ⟨rfl, hconverges (by decide) ?_⟩
  show (1 / 2 : ℝ) ≤
    (⟨0, -1, [0, 1], 0⟩ : Opening).reference lookingBack + 1e-4 * run.step * -1
  have hreference : (⟨0, -1, [0, 1], 0⟩ : Opening).reference lookingBack = 1 := by
    norm_num [Opening.reference, lookingBack]
  rw [hrun, hreference]
  norm_num

end LineSearch

end Descent
