/-
# Conversations

What a caller can read off an optimizer, and callers that decide on each of their calls
only when they know the point that they were handed back last.

* `Readings` : everything that an optimizer can be asked for, apart from points;
* `Optimizer.exchange_of_running`, `Call.mismatched_or_report` : what a call does;
* `Optimizer.converse` : the optimizer and the caller's point after some calls;
* `Optimizer.after_callsOf` : a conversation is the series of its calls;
* `Optimizer.iterate_mapConfig` : settings that a run does not depend on.
-/
import Descent.Proofs.AcceptedPoint

namespace Descent

open Scalar

variable {α : Type} {n : Nat}

/-! ## Readings -/

/-- What an optimizer can be asked for, apart from points. -/
structure Readings (α : Type) where
  task : Task
  status : Status
  iterations : Nat
  evaluations : Nat
  restarts : Nat
  step : α
  gradientNorm? : Option α
  memoryLength : Nat

/-- The call that reports a point with its value and gradient. -/
def Point.call (p : Point α n) : Call α :=
  ⟨p.x.toArray, p.f, p.g.toArray⟩

variable [Scalar α]

namespace Optimizer

/-- What an optimizer answers to all that it can be asked for. -/
def readings (o : Optimizer α n) : Readings α where
  task := o.task
  status := o.status
  iterations := o.iterations
  evaluations := o.evaluations
  restarts := o.restarts
  step := o.step
  gradientNorm? := o.gradientNorm?
  memoryLength := o.memoryLength

theorem readings_congr {o o' : Optimizer α n} (hclosed : o.closed = o'.closed)
    (hbody : o.body = o'.body) : o.readings = o'.readings := by
  simp only [readings, task, status, iterations, evaluations, restarts, step, gradientNorm?,
    memoryLength, solver?, hclosed, hbody]

theorem accepted?_congr {o o' : Optimizer α n} (hclosed : o.closed = o'.closed)
    (hbody : o.body = o'.body) : o.accepted? = o'.accepted? := by
  simp only [accepted?, solver?, hclosed, hbody]

/-! ## One call -/

/-- A run that has ended takes no notice of a call. -/
theorem exchange_of_isTerminal {o : Optimizer α n} (h : o.task.isTerminal = true) (call : Call α) :
    o.exchange call = (o, call.x) := by
  unfold exchange
  cases hclosed : o.closed with
  | true => rw [iterate_of_closed o hclosed]
  | false => rw [iterate_of_isTerminal o hclosed h]

/-- A point reported to a run that goes on moves it on. -/
theorem exchange_of_running {o : Optimizer α n} {s : Solver α n} (hopen : o.closed = false)
    (hbody : o.body = .ok s) (hrunning : s.task.isTerminal = false) (p : Point α n) :
    o.exchange p.call =
      (o.proceed (s.advance o.config p.x p.f p.g).1,
        (s.advance o.config p.x p.f p.g).2.toArray) := by
  unfold exchange Point.call
  rw [iterate_of_running hopen hbody hrunning]

/-- The run after a series of calls and another point. -/
theorem body_after_call {o : Optimizer α n} (hopen : o.closed = false) (calls : List (Call α))
    {s : Solver α n} (hbody : (o.after calls).body = .ok s) (hrunning : s.task.isTerminal = false)
    (p : Point α n) :
    (o.after (calls ++ [p.call])).body = .ok (s.advance o.config p.x p.f p.g).1 := by
  rw [after_concat, exchange_of_running ((closed_after o calls).trans hopen) hbody hrunning,
    body_proceed, config_after]

/-- A call reports a point of the right dimension, or it never has an effect. -/
theorem mismatched_or_report (n : Nat) (call : Call α) :
    (∀ o : Optimizer α n, o.exchange call = (o, call.x)) ∨ ∃ p : Point α n, call = p.call := by
  by_cases hsize : call.x.size = n ∧ call.g.size = n
  · right
    exact ⟨⟨⟨call.x, hsize.1⟩, call.f, ⟨call.g, hsize.2⟩⟩, rfl⟩
  · left
    intro o
    rcases o.exchange_cases call with h | ⟨s, s', x, g, x', -, hx, hg, -, -⟩
    · exact h
    · apply absurd _ hsize
      rw [hx, hg]
      exact ⟨x.size_toArray, g.size_toArray⟩

/-! ## Callers -/

/-- The optimizer and the caller's point after a number of calls.  The caller chooses each
call by its number and by the point that it was handed back last. -/
def converse (o : Optimizer α n) (caller : Nat → Array α → Call α) (x : Array α) :
    Nat → Optimizer α n × Array α
  | 0 => (o, x)
  | k + 1 => (o.converse caller x k).1.exchange (caller k (o.converse caller x k).2)

/-- The calls of a conversation. -/
def callsOf (o : Optimizer α n) (caller : Nat → Array α → Call α) (x : Array α) (k : Nat) :
    List (Call α) :=
  (List.range k).map fun j => caller j (o.converse caller x j).2

variable {o : Optimizer α n} {caller : Nat → Array α → Call α} {x : Array α}

theorem callsOf_succ (k : Nat) :
    o.callsOf caller x (k + 1) = o.callsOf caller x k ++ [caller k (o.converse caller x k).2] := by
  simp [callsOf, List.range_succ]

/-- A conversation is the series of its calls. -/
theorem after_callsOf (k : Nat) : o.after (o.callsOf caller x k) = (o.converse caller x k).1 := by
  induction k with
  | zero => rfl
  | succ k ih => rw [callsOf_succ, after_concat, ih, converse]

/-- What is accepted in the last call of a conversation comes last. -/
theorem acceptedPoints_callsOf_succ (k : Nat) :
    o.acceptedPoints (o.callsOf caller x (k + 1)) =
      o.acceptedPoints (o.callsOf caller x k) ++
        ((o.converse caller x k).1.newlyAccepted? (o.converse caller x (k + 1)).1).toList := by
  rw [callsOf_succ, acceptedPoints_append, after_callsOf]
  simp [acceptedPoints, converse]

@[simp] theorem closed_converse (k : Nat) : (o.converse caller x k).1.closed = o.closed := by
  rw [← after_callsOf, closed_after]

@[simp] theorem config_converse (k : Nat) : (o.converse caller x k).1.config = o.config := by
  rw [← after_callsOf, config_after]

/-! ## Settings that make no difference -/

/-- The optimizer with its settings changed. -/
def mapConfig (φ : Config α → Config α) (o : Optimizer α n) : Optimizer α n :=
  { o with config := φ o.config }

variable {φ : Config α → Config α}

/-- Where a run goes on in the same way under changed settings, a call has the same result. -/
theorem iterate_mapConfig (h : ∀ s, o.body = .ok s → ∀ x f g,
      s.advance (φ o.config) x f g = s.advance o.config x f g)
    (x : Array α) (f : α) (g : Array α) :
    (o.mapConfig φ).iterate x f g =
      (o.iterate x f g).map fun next => (next.1.mapConfig φ, next.2) := by
  obtain ⟨c, body, closed⟩ := o
  cases closed with
  | true => rfl
  | false =>
    cases body with
    | error e => rfl
    | ok s =>
      have hadvance := h s rfl
      simp only [iterate, mapConfig, Bool.false_eq_true, if_false, hadvance]
      split
      · rfl
      · split
        · split
          · rfl
          · rfl
        · rfl

/-- So it leaves optimizers that differ in their settings only, and the same point. -/
theorem exchange_mapConfig (h : ∀ s, o.body = .ok s → ∀ x f g,
      s.advance (φ o.config) x f g = s.advance o.config x f g) (call : Call α) :
    (o.mapConfig φ).exchange call =
      ((o.exchange call).1.mapConfig φ, (o.exchange call).2) := by
  unfold exchange
  rw [iterate_mapConfig h]
  cases o.iterate call.x call.f call.g with
  | ok next => rfl
  | error e => rfl

end Optimizer

end Descent
