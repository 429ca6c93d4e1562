/-
# A conjugate-gradient engine by itself

The engine outside a run: directions and restarts are asked of it in any order.  It has places of
their own for the direction, the gradient and the number of updates, which hold something even
before there was a gradient, so it also keeps whether there was one.

* `ConjugateEngine.compute`, `ConjugateEngine.perform` : what can be asked of it;
* `ConjugateEngine.after`, `ConjugateEngine.replies` : a series of calls, and what the caller sees;
* `ConjugateEngine.compute_eq` : the directions are those of `Conjugate.next`.
-/
import Descent.Direction.ConjugateGradient

namespace Descent

open Scalar

/-- A source of conjugate directions. -/
structure ConjugateEngine (α : Type) (n : Nat) where
  /-- The last direction. -/
  direction : Vector α n
  /-- The gradient that it was made for. -/
  gradient : Vector α n
  /-- There was a gradient. -/
  started : Bool
  /-- The number of directions since steepest descent was last taken. -/
  updates : Nat

namespace ConjugateEngine

/-- What can be asked of an engine. -/
inductive Call (α : Type) (n : Nat) where
  /-- Give the direction at a point with gradient `g`, reached by the given step. -/
  | compute (g : Vector α n) (step : α)
  /-- Forget the directions so far and give steepest descent for the gradient `g`. -/
  | restart (g : Vector α n)

/-- What the caller sees of a call. -/
structure Reply (α : Type) (n : Nat) where
  /-- Whether steepest descent had to be taken instead of an update, if a direction was asked. -/
  restarted? : Option Bool
  /-- The direction. -/
  direction : Vector α n

variable {α : Type} [Scalar α] {n : Nat}

/-! ## One call -/

/-- An engine before the first call. -/
def new (n : Nat) : ConjugateEngine α n :=
  { direction := zeros n, gradient := zeros n, started := false, updates := 0 }

/-- An engine that takes steepest descent. -/
def steepest (g : Vector α n) : ConjugateEngine α n :=
  { direction := negate g, gradient := g, started := true, updates := 0 }

/-- What the engine holds for the next direction to depend on. -/
def held (e : ConjugateEngine α n) : Conjugate α n :=
  { gradient := e.gradient, direction := e.direction, updates := e.updates }

/-- The engine with the next direction, and whether steepest descent had to be taken instead of an
update.  The first direction is steepest descent, and no update was due. -/
def compute (c : Config α) (e : ConjugateEngine α n) (g : Vector α n) (step : α) :
    ConjugateEngine α n × Bool :=
  if !e.started then (steepest g, false)
  else if c.powell && e.held.isStale g then (steepest g, true)
  else
    let β := Conjugate.weight c.conjugacy e.held g step
    if isFinite β then
      ({ e with
          direction := combine (-1) g β e.direction
          gradient := g
          updates := e.updates + 1 }, false)
    else (steepest g, true)

/-- One call. -/
def perform (c : Config α) (e : ConjugateEngine α n) : Call α n → ConjugateEngine α n × Reply α n
  | .compute g step =>
    let (next, restarted) := e.compute c g step
    (next, ⟨some restarted, next.direction⟩)
  | .restart g => (steepest g, ⟨none, (steepest g).direction⟩)

/-! ## Series of calls -/

/-- The engine after a series of calls, the first one first. -/
def after (c : Config α) (e : ConjugateEngine α n) (calls : List (Call α n)) :
    ConjugateEngine α n :=
  calls.foldl (fun e call => (e.perform c call).1) e

/-- What the caller sees of a series of calls. -/
def replies (c : Config α) (e : ConjugateEngine α n) : List (Call α n) → List (Reply α n)
  | [] => []
  | call :: calls => (e.perform c call).2 :: replies c (e.perform c call).1 calls

theorem after_append (c : Config α) (e : ConjugateEngine α n) (calls more : List (Call α n)) :
    e.after c (calls ++ more) = (e.after c calls).after c more :=
  List.foldl_append

/-! ## Directions -/

/-- What the engine remembers: nothing before the first gradient. -/
def last? (e : ConjugateEngine α n) : Option (Conjugate α n) :=
  if e.started then some e.held else none

/-- An engine that remembers its last direction. -/
def remembering (last : Conjugate α n) : ConjugateEngine α n :=
  { direction := last.direction
    gradient := last.gradient
    started := true
    updates := last.updates }

/-- The engine gives the next conjugate direction and remembers it. -/
theorem compute_eq (c : Config α) (e : ConjugateEngine α n) (g : Vector α n) (step : α) :
    e.compute c g step =
      (remembering (Conjugate.next c e.last? g step).1, (Conjugate.next c e.last? g step).2) := by
  obtain ⟨direction, gradient, started, updates⟩ := e
  cases started with
  | false => rfl
  | true =>
    simp only [compute, last?, Conjugate.next, Bool.not_true, Bool.false_eq_true, if_false, if_true]
    split
    · rfl
    · split
      · rfl
      · rfl

end ConjugateEngine

end Descent
