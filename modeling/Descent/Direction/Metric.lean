/-
# A variable metric by itself

The variable metric outside a run: pairs are offered to it and directions asked of it
in any order.

* `Metric.perform` : what can be asked of it;
* `Metric.after` : a series of requests;
* `Metric.valid_of_mem_after` : whatever was asked, the pairs kept are valid.
-/
import Descent.Direction.VariableMetric

namespace Descent

/-- A variable metric and the direction it was asked for last. -/
structure Metric (α : Type) (n : Nat) where
  /-- The pairs, newest first. -/
  pairs : List (CurvaturePair α n)
  /-- The last direction. -/
  direction : Vector α n

namespace Metric

/-- What can be asked of a variable metric. -/
inductive Request (α : Type) (n : Nat) where
  /-- Consider the displacement `s` with the gradient change `y`. -/
  | update (s y : Vector α n)
  /-- Give the direction at `x` for the gradient `g` and its projection `pg`. -/
  | compute (box : Box α n) (x g pg : Vector α n)
  /-- Give steepest descent for the projected gradient. -/
  | steepest (pg : Vector α n)
  /-- Forget all pairs. -/
  | reset

variable {α : Type} [Scalar α] {n : Nat}

/-- A variable metric before the first request. -/
def new (n : Nat) : Metric α n :=
  { pairs := [], direction := zeros n }

/-- One request. -/
def perform (c : Config α) (m : Metric α n) : Request α n → Metric α n
  | .update s y => { m with pairs := learn c m.pairs s y }
  | .compute box x g pg => { m with direction := metricDirection c box m.pairs x g pg }
  | .steepest pg => { m with direction := negate pg }
  | .reset => { m with pairs := [] }

/-- The metric after a series of requests, the first one first. -/
def after (c : Config α) (requests : List (Request α n)) : Metric α n :=
  requests.foldl (perform c) (new n)

/-- A request leaves valid pairs where there were valid ones. -/
theorem valid_of_mem_perform {c : Config α} {m : Metric α n} (hm : ∀ p ∈ m.pairs, p.Valid)
    (request : Request α n) : ∀ p ∈ (m.perform c request).pairs, p.Valid := by
  cases request with
  | update s y =>
    intro p hp
    exact valid_of_mem_learn hm hp
  | compute box x g pg => exact hm
  | steepest pg => exact hm
  | reset => intro p hp; cases hp

/-- Whatever was asked, the pairs kept are valid. -/
theorem valid_of_mem_after (c : Config α) (requests : List (Request α n)) :
    ∀ p ∈ (after c requests).pairs, p.Valid := by
  suffices h : ∀ m : Metric α n, (∀ p ∈ m.pairs, p.Valid) →
      ∀ p ∈ (requests.foldl (perform c) m).pairs, p.Valid by
    refine h (new n) ?_
    intro p hp
    cases hp
  induction requests with
  | nil => exact fun m hm => hm
  | cons request requests ih => exact fun m hm => ih _ (valid_of_mem_perform hm request)

end Metric

end Descent
