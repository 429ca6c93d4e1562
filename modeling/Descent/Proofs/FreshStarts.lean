/-
# Fresh starts of conjugate gradients

Where an engine takes steepest descent it keeps nothing but the gradient that it was given, so from
then on nobody can tell it from an engine that was given this gradient first.  An engine that tests
for staleness counts its updates, and never gets beyond the number of variables: it has to take
steepest descent after as many updates, if not before.

* `ConjugateEngine.Indistinguishable` : the same replies to all calls that may follow;
* `ConjugateEngine.compute_eq_steepest` : what a restart leaves;
* `Conjugate.updates_next` : what an update does to the count;
* `ConjugateEngine.updates_perform_le` : the count is bounded;
* `ConjugateEngine.updates_after_computes` : without restarts it counts the directions;
* `ConjugateEngine.restarts_forget` : restarts forget the past, and come in time.
-/
import Mathlib.Tactic.ByContra
import Descent.Direction.ConjugateEngine
import Descent.Proofs.ConjugateWeights

namespace Descent

open Scalar

variable {α : Type} [Scalar α] {n : Nat}

/-- An update counts one more, and is only made of a direction that is not stale. -/
theorem Conjugate.updates_next {c : Config α} {last : Conjugate α n} {g : Vector α n} {step : α}
    (h : (next c (some last) g step).2 = false) :
    (next c (some last) g step).1.updates = last.updates + 1 ∧
      (c.powell = true → last.updates < n) := by
  by_cases hstale : c.powell = true ∧ last.isStale g = true
  · rw [next_of_stale hstale] at h
    cases h
  · rw [next_of_fresh hstale] at h ⊢
    split at h
    · next hfinite =>
      rw [if_pos hfinite]
      refine ⟨rfl, fun hpowell => ?_⟩
      by_contra hcount
      exact hstale ⟨hpowell, by simp [isStale, Nat.le_of_not_lt hcount]⟩
    · cases h

namespace ConjugateEngine

variable {c : Config α} {e : ConjugateEngine α n} {g : Vector α n} {step : α}

/-! ## What is left of the past -/

/-- Two engines show the same direction, and the same replies to all calls that may follow. -/
structure Indistinguishable (c : Config α) (e e' : ConjugateEngine α n) : Prop where
  /-- The direction is the same now. -/
  direction : e.direction = e'.direction
  /-- The replies will be. -/
  replies (calls : List (Call α n)) : e.replies c calls = e'.replies c calls

theorem Indistinguishable.refl (c : Config α) (e : ConjugateEngine α n) :
    Indistinguishable c e e where
  direction := rfl
  replies _ := rfl

/-- An engine that was asked for one direction has taken steepest descent. -/
theorem after_first (c : Config α) (g : Vector α n) (step : α) :
    (new n).after c [.compute g step] = steepest g := by
  rfl

/-- Where an engine restarts it takes steepest descent and keeps nothing else. -/
theorem compute_eq_steepest (h : (e.compute c g step).2 = true) :
    e.compute c g step = (steepest g, true) := by
  rw [compute_eq] at h ⊢
  have hsteepest := Conjugate.next_eq_steepest_of_restart h
  exact Prod.ext (congrArg remembering hsteepest) h

/-! ## The count of updates -/

/-- After any call there was a gradient. -/
theorem started_perform (c : Config α) (e : ConjugateEngine α n) (call : Call α n) :
    (e.perform c call).1.started = true := by
  cases call with
  | compute g step =>
    show (e.compute c g step).1.started = true
    rw [compute_eq]
    rfl
  | restart g => rfl

/-- A direction that is an update counts one more. -/
theorem updates_compute (hstarted : e.started = true) (h : (e.compute c g step).2 = false) :
    (e.compute c g step).1.updates = e.updates + 1 ∧ (c.powell = true → e.updates < n) := by
  rw [compute_eq, last?, if_pos hstarted] at h ⊢
  exact Conjugate.updates_next h

/-- No call leaves a count beyond the number of variables if staleness is tested. -/
theorem updates_perform_le (hpowell : c.powell = true) (e : ConjugateEngine α n) (call : Call α n) :
    (e.perform c call).1.updates ≤ n := by
  cases call with
  | compute g step =>
    show (e.compute c g step).1.updates ≤ n
    cases hrestarted : (e.compute c g step).2 with
    | true =>
      rw [compute_eq_steepest hrestarted]
      exact Nat.zero_le n
    | false =>
      cases hstarted : e.started with
      | false =>
        rw [compute, hstarted]
        exact Nat.zero_le n
      | true =>
        obtain ⟨hcount, hfresh⟩ := updates_compute hstarted hrestarted
        rw [hcount]
        exact hfresh hpowell
  | restart g => exact Nat.zero_le n

/-- An engine that was called has answered a last call. -/
theorem exists_last_call (c : Config α) (e : ConjugateEngine α n) {calls : List (Call α n)}
    (hcalls : calls ≠ []) :
    ∃ (e' : ConjugateEngine α n) (call : Call α n), e.after c calls = (e'.perform c call).1 := by
  rw [← List.dropLast_concat_getLast hcalls, after_append]
  exact ⟨_, _, rfl⟩

/-- Calls that ask for directions, one for each gradient and step. -/
def computes (points : List (Vector α n × α)) : List (Call α n) :=
  points.map fun (g, step) => .compute g step

/-- As long as all directions are updates each of them counts. -/
theorem updates_after_computes (hstarted : e.started = true) {points : List (Vector α n × α)}
    (h : ∀ reply ∈ e.replies c (computes points), reply.restarted? ≠ some true) :
    (e.after c (computes points)).updates = e.updates + points.length := by
  induction points generalizing e with
  | nil => rfl
  | cons point points ih =>
    obtain ⟨g, step⟩ := point
    simp only [computes, List.map_cons, replies, List.forall_mem_cons] at h
    obtain ⟨hfirst, hrest⟩ := h
    have hupdate : (e.compute c g step).2 = false := by
      rw [← Bool.not_eq_true]
      exact fun hrestarted => hfirst (congrArg some hrestarted)
    have hcount := ih (started_perform c e (.compute g step)) hrest
    calc (e.after c (computes ((g, step) :: points))).updates
        = (e.compute c g step).1.updates + points.length := hcount
      _ = e.updates + 1 + points.length := by rw [(updates_compute hstarted hupdate).1]
      _ = e.updates + ((g, step) :: points).length := by rw [List.length_cons]; omega

/-- **Restarts forget the past, and come in time.**  An engine has been called any number of times,
for directions and for restarts.

* After a restart that it is asked for, and after a direction for which it restarts, nobody can tell
  it from a new engine that was asked for one direction with the same gradient.
* If it tests for staleness and was called before, it restarts for at least one of the next
  directions, if they are one more than the variables. -/
theorem restarts_forget (c : Config α) (past : List (Call α n)) :
    let e := (new n).after c past
    (∀ (g : Vector α n) (step : α),
      Indistinguishable c (e.perform c (.restart g)).1 ((new n).after c [.compute g step])) ∧
    (∀ (g : Vector α n) (step step' : α),
      (e.perform c (.compute g step)).2.restarted? = some true →
        Indistinguishable c (e.perform c (.compute g step)).1
          ((new n).after c [.compute g step'])) ∧
    (c.powell = true → past ≠ [] → ∀ points : List (Vector α n × α), points.length = n + 1 →
      ∃ reply ∈ e.replies c (computes points), reply.restarted? = some true) := by
  intro e
  refine ⟨?_, ?_, ?_⟩
  · intro g step
    rw [after_first]
    exact .refl c (steepest g)
  · intro g step step' hrestarted
    have hsteepest : (e.perform c (.compute g step)).1 = steepest g :=
      congrArg Prod.fst (compute_eq_steepest (Option.some.inj hrestarted))
    rw [after_first, hsteepest]
    exact .refl c (steepest g)
  · intro hpowell hpast points hpoints
    by_contra hnone
    have hstarted : e.started = true := by
      obtain ⟨e', call, hlast⟩ := exists_last_call c (new n) hpast
      rw [show e = _ from hlast]
      exact started_perform c e' call
    -- all directions would have been counted, and they are too many
    have hcount := updates_after_computes hstarted
      fun reply hreply hrestarted => hnone ⟨reply, hreply, hrestarted⟩
    have hmost : (e.after c (computes points)).updates ≤ n := by
      have hcalls : computes points ≠ [] := by
        rw [computes, ne_eq, List.map_eq_nil_iff, ← List.length_eq_zero_iff]
        omega
      obtain ⟨e', call, hlast⟩ := exists_last_call c e hcalls
      rw [hlast]
      exact updates_perform_le hpowell e' call
    omega

/-- In the plane the gradients alternate between two orthogonal ones: the engine makes two updates,
restarts at the next direction, and is then like a new one. -/
theorem alternating_gradients_restart :
    let c : Config Float := { conjugacy := .fletcherReeves, powell := true }
    let e := (new 2).after c [.compute #v[1, 0] 1]
    let calls := computes [(#v[0, 1], 1), (#v[1, 0], 1)]
    (e.replies c calls).map (·.restarted?) = [some false, some false] ∧
      (∃ reply ∈ e.replies c (calls ++ [.compute #v[0, 1] 1]), reply.restarted? = some true) ∧
      Indistinguishable c ((e.after c calls).perform c (.compute #v[0, 1] 1)).1
        ((new 2).after c [.compute #v[0, 1] 5]) := by
  intro c e calls
  have hrestarted :
      ((e.after c calls).perform c (.compute #v[0, 1] 1)).2.restarted? = some true := by
    decide +kernel
  refine ⟨by decide +kernel, ?_, ?_⟩
  · obtain ⟨-, -, htime⟩ := restarts_forget c [.compute #v[1, 0] 1]
    exact htime rfl (List.cons_ne_nil _ _) [(#v[0, 1], 1), (#v[1, 0], 1), (#v[0, 1], 1)] rfl
  · obtain ⟨-, hforgets, -⟩ := restarts_forget c ([.compute #v[1, 0] 1] ++ calls)
    rw [after_append] at hforgets
    exact hforgets #v[0, 1] 1 5 hrestarted

end ConjugateEngine

end Descent
