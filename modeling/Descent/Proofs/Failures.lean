/-
# Recorded failures

What an optimizer records about the end of its run.  A run that ends with an error has a
failure on record, any other one an accepted point, and no failure on record says that
calls came in the wrong order.

* `Failure.isMisuse` : the failures that say so;
* `NeverMisuse` : checks that never fail in this way;
* `Optimizer.exists_failure?` : errors have their failure on record;
* `Optimizer.Reachable.isMisuse_failure?` : none of them says that;
* `Optimizer.exists_accepted?_after` : other ends have their accepted point.
-/
import Descent.Proofs.AcceptedPoint

namespace Descent

open Scalar

variable {α : Type}

/-- The failures that say that calls came in the wrong order. -/
def Failure.isMisuse : Failure α → Bool
  | notInitialized _ | cannotIterate _ => true
  | _ => false

/-! ## The checks of the input -/

/-- A computation that does not fail because of calls in the wrong order. -/
def NeverMisuse {β : Type} (result : Except (Failure α) β) : Prop :=
  ∀ e, result = .error e → e.isMisuse = false

theorem neverMisuse_ok {β : Type} (value : β) : NeverMisuse (.ok value : Except (Failure α) β) := by
  intro e h
  cases h

/-- A computation that fails for another reason. -/
theorem neverMisuse_error {β : Type} {e : Failure α} (he : e.isMisuse = false) :
    NeverMisuse (.error e : Except (Failure α) β) := by
  intro e' h
  cases h
  exact he

/-- One computation after another. -/
theorem NeverMisuse.bind {β γ : Type} {first : Except (Failure α) β}
    {rest : β → Except (Failure α) γ} (hfirst : NeverMisuse first)
    (hrest : ∀ value, NeverMisuse (rest value)) : NeverMisuse (first >>= rest) := by
  intro e h
  cases first with
  | error e' =>
    cases h
    exact hfirst e rfl
  | ok value => exact hrest value e h

variable [Scalar α] {n : Nat}

/-- The settings fail because of their ranges. -/
theorem neverMisuse_validate (c : Config α) : NeverMisuse c.validate := by
  have htolerance (name : String) (value : α) : NeverMisuse (checkTolerance name value) := by
    unfold checkTolerance
    repeat' split
    · exact neverMisuse_error rfl
    · exact neverMisuse_error rfl
    · exact neverMisuse_ok ()
  have hdelta : NeverMisuse (checkDelta c.delta) := by
    unfold checkDelta
    repeat' split
    · exact neverMisuse_error rfl
    · exact neverMisuse_error rfl
    · exact neverMisuse_ok ()
  have hepsilon : NeverMisuse (checkEpsilon c.epsilon) := by
    unfold checkEpsilon
    split
    · exact neverMisuse_error rfl
    · exact neverMisuse_ok ()
  have hsearch :
      NeverMisuse (checkSearchConstants c.sftol c.curvatureTolerance c.sxtol c.maxTrials) := by
    unfold checkSearchConstants
    repeat' split
    · exact neverMisuse_error rfl
    · exact neverMisuse_error rfl
    · exact neverMisuse_error rfl
    · exact neverMisuse_error rfl
    · exact neverMisuse_ok ()
  have hmemory : NeverMisuse (checkMemory (α := α) c.memory) := by
    unfold checkMemory
    split
    · exact neverMisuse_error rfl
    · exact neverMisuse_ok ()
  have hwindow : NeverMisuse (checkWindow (α := α) c.window) := by
    unfold checkWindow
    split
    · exact neverMisuse_error rfl
    · exact neverMisuse_ok ()
  exact (htolerance "gatol" c.gatol).bind fun _ => (htolerance "grtol" c.grtol).bind fun _ =>
    hdelta.bind fun _ => hepsilon.bind fun _ => hsearch.bind fun _ => hmemory.bind fun _ => hwindow

/-- A starting point fails because of its components. -/
theorem neverMisuse_checkStart (x : Array α) : NeverMisuse (checkStart x) := by
  unfold checkStart
  repeat' split
  · exact neverMisuse_error rfl
  · exact neverMisuse_error rfl
  · exact neverMisuse_ok ()

/-- Bounds fail because of their dimensions and values. -/
theorem neverMisuse_ofBounds (bounds : Bounds α) (n : Nat) :
    NeverMisuse (Box.ofBounds bounds n) := by
  have hbounds (values : Vector (Option α) n) : NeverMisuse (checkBounds values) := by
    unfold checkBounds
    split
    · exact neverMisuse_error rfl
    · exact neverMisuse_ok values
  have hside (what : String) (side : Side α) : NeverMisuse (side.resolve what n) := by
    unfold Side.resolve
    split
    · exact neverMisuse_ok _
    · exact hbounds _
    · split
      · exact hbounds _
      · exact neverMisuse_error rfl
  have hcrossing (sides : Vector (Interval α) n) : NeverMisuse (checkCrossing sides) := by
    unfold checkCrossing
    split
    · exact neverMisuse_error rfl
    · exact neverMisuse_ok sides
  have hresolve : NeverMisuse (bounds.resolve n) :=
    (hside _ bounds.lower).bind fun _ => (hside _ bounds.upper).bind fun _ => hcrossing _
  exact hresolve.bind fun sides => neverMisuse_ok _

/-- Bounds that a method cannot respect are no misuse. -/
theorem neverMisuse_checkBoundsSupport (c : Config α) (box : Box α n) :
    NeverMisuse (checkBoundsSupport c box) := by
  unfold checkBoundsSupport
  repeat' split
  · exact neverMisuse_error rfl
  · exact neverMisuse_error rfl
  · exact neverMisuse_ok ()
  · exact neverMisuse_ok ()

/-- Where a run cannot begin, its input is the reason. -/
theorem neverMisuse_begin? (x₀ : Vector α n) (c : Config α) (bounds : Bounds α) :
    NeverMisuse (Optimizer.begin? x₀ c bounds) :=
  (neverMisuse_validate c).bind fun _ => (neverMisuse_checkStart x₀.toArray).bind fun _ =>
    (neverMisuse_ofBounds bounds n).bind fun box =>
      (neverMisuse_checkBoundsSupport c box).bind fun _ => neverMisuse_ok _

/-! ## Verdicts -/

/-- An error is recorded with a failure. -/
theorem Verdict.exists_failure? {v : Verdict α} (h : v.task = .error) (c : Config α) :
    ∃ e, v.failure? c = some e := by
  cases v with
  | undefinedValue value => exact ⟨_, rfl⟩
  | undefinedGradient index value => exact ⟨_, rfl⟩
  | notDescent slope => exact ⟨_, rfl⟩
  | searchFailed step reason => exact ⟨_, rfl⟩
  | _ => cases h

/-- A run stops because of what it met. -/
theorem Verdict.isMisuse_failure? {v : Verdict α} {c : Config α} {e : Failure α}
    (h : v.failure? c = some e) : e.isMisuse = false := by
  cases v <;> cases h <;> rfl

namespace Solver

variable {c : Config α} {s s' : Solver α n} {x x' : Vector α n} {f : α} {g : Vector α n}

/-- A run that stops without an accepted point stops with an error. -/
def KeepsPoint (s : Solver α n) : Prop :=
  ∀ verdict, s.phase = .stopped none verdict → verdict.task = .error

/-- A transition stops without an accepted point only at a first answer that is not
finite. -/
theorem Transition.keepsPoint (h : Transition c s x f g s' x') (hs : s.KeepsPoint) :
    s'.KeepsPoint := by
  intro verdict hphase
  cases h with
  | project hopening hx => exact hs verdict hphase
  | idle last verdict' hstopped => exact hs verdict hphase
  | flawAtFirst flaw hopening hx hflaw =>
    cases hphase
    exact task_of_flaw? hflaw
  | first hopening hx hflaw =>
    have hnew := accepted?_settle c (s.takeFirst c ⟨x, f, g⟩) ⟨x, f, g⟩
    rw [show (s.takeFirst c ⟨x, f, g⟩).settle c ⟨x, f, g⟩ = .stopped none verdict from hphase]
      at hnew
    cases hnew
  | step trial remark hsearching hflaw hanswer =>
    have hnew := accepted?_heed remark ((s.takeStep c trial ⟨x, f, g⟩).settle c ⟨x, f, g⟩)
    rw [accepted?_settle, show heed remark ((s.takeStep c trial ⟨x, f, g⟩).settle c ⟨x, f, g⟩) =
      .stopped none verdict from hphase] at hnew
    cases hnew
  | _ => cases hphase

end Solver

/-! ## Optimizers -/

namespace Optimizer

/-- An error has its failure on record. -/
theorem exists_failure? {o : Optimizer α n} (h : o.task = .error ∨ o.task = .inputError) :
    ∃ e, o.failure? = some e := by
  cases hbody : o.body with
  | error e => exact ⟨e, by rw [failure?, hbody]⟩
  | ok s =>
    rw [task_of_body hbody] at h
    have hfailure : o.failure? = s.failure? o.config := by rw [failure?, hbody]
    rw [hfailure]
    cases hphase : s.phase with
    | stopped last verdict =>
      have htask : verdict.task = .error := by
        have heq : s.task = verdict.task := by rw [Solver.task, hphase]; rfl
        rw [heq] at h
        rcases h with h | h
        · exact h
        · cases verdict <;> cases h
      obtain ⟨e, he⟩ := verdict.exists_failure? htask o.config
      refine ⟨e, ?_⟩
      rw [Solver.failure?, hphase]
      exact he
    | opening =>
      rw [Solver.task_of_opening hphase] at h
      rcases h with h | h <;> cases h
    | searching trial =>
      rw [Solver.task_of_searching hphase] at h
      rcases h with h | h <;> cases h
    | accepted p =>
      rw [Solver.task_of_accepted hphase] at h
      rcases h with h | h <;> cases h

/-- Where a run could not begin, this is what is on record for good. -/
theorem Reachable.begin?_eq_error {x₀ : Vector α n} {c : Config α} {bounds : Bounds α}
    {o : Optimizer α n} (h : Reachable x₀ c bounds o) {e : Failure α} (he : o.body = .error e) :
    begin? x₀ c bounds = .error e := by
  induction h with
  | start => exact he
  | @exchange o h call ih =>
    rcases o.exchange_cases call with heq | ⟨s₀, s', x, g, x', -, -, -, heq, -⟩
    · rw [heq] at he
      exact ih he
    · rw [heq, body_proceed] at he
      cases he
  | close h ih => exact ih he

/-- Whatever calls are made, no failure on record is a misuse. -/
theorem Reachable.isMisuse_failure? {x₀ : Vector α n} {c : Config α} {bounds : Bounds α}
    {o : Optimizer α n} (h : Reachable x₀ c bounds o) {e : Failure α} (he : o.failure? = some e) :
    e.isMisuse = false := by
  cases hbody : o.body with
  | error e' =>
    rw [failure?, hbody] at he
    cases he
    exact neverMisuse_begin? x₀ c bounds e (h.begin?_eq_error hbody)
  | ok s =>
    have hfailure : s.failure? o.config = some e := by
      rw [failure?, hbody] at he
      exact he
    obtain ⟨verdict, -, hverdict⟩ := Option.bind_eq_some_iff.mp hfailure
    exact Verdict.isMisuse_failure? hverdict

/-- Calls lead from a reachable optimizer to reachable ones. -/
theorem reachable_after (x₀ : Vector α n) (c : Config α) (bounds : Bounds α)
    (calls : List (Call α)) : Reachable x₀ c bounds ((start x₀ c bounds).after calls) := by
  induction calls using List.reverseRecOn with
  | nil => exact .start
  | append_singleton calls call ih =>
    rw [after_concat]
    exact ih.exchange call

/-- A run that has converged, or was given up with a warning, has an accepted point. -/
theorem exists_accepted?_after {x₀ : Vector α n} {c : Config α} {bounds : Bounds α}
    {calls : List (Call α)}
    (h : ((start x₀ c bounds).after calls).task = .finalX ∨
      ((start x₀ c bounds).after calls).task = .warning) :
    ∃ p, ((start x₀ c bounds).after calls).accepted? = some p := by
  cases hbody : ((start x₀ c bounds).after calls).body with
  | error e =>
    rw [task, hbody] at h
    rcases h with h | h <;> cases h
  | ok s =>
    have hopen : ((start x₀ c bounds).after calls).closed = false := by
      rw [closed_after]
      rfl
    have hkeeps : s.KeepsPoint := by
      refine (reachable_after x₀ c bounds calls).invariant ?_ ?_ hbody
      · intro s₀ hbegin verdict hphase
        rw [phase_of_begin? hbegin] at hphase
        cases hphase
      · intro s x f g s' x' htrans
        exact htrans.keepsPoint
    rw [task_of_body hbody] at h
    rw [accepted?_of_body hopen hbody]
    cases hphase : s.phase with
    | opening =>
      rw [Solver.task_of_opening hphase] at h
      rcases h with h | h <;> cases h
    | searching trial => exact ⟨trial.base, Solver.accepted?_of_searching hphase⟩
    | accepted p => exact ⟨p, Solver.accepted?_of_accepted hphase⟩
    | stopped last verdict =>
      cases last with
      | some p => exact ⟨p, Solver.accepted?_of_stopped hphase⟩
      | none =>
        have htask : s.task = .error := by
          rw [Solver.task, hphase]
          exact hkeeps verdict hphase
        rw [htask] at h
        rcases h with h | h <;> cases h

end Optimizer

end Descent
