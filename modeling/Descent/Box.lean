/-
# Boxes

The feasible set of a minimization: one interval for each variable.

* `Box.project` : the nearest point of the box;
* `Box.projectedGradient`, `Box.free` : the components in which steepest descent
  can move;
* `Box.stepLimits` : where the projected path along a direction changes.
-/
import Descent.Box.Bounds
import Descent.Dense

namespace Descent

open Scalar

/-- A box in `n` dimensions. -/
structure Box (α : Type) (n : Nat) where
  /-- The interval of each component. -/
  sides : Vector (Interval α) n
  /-- The caller asked for bounds, be they infinite or not. -/
  bounded : Bool

/-- The steps along a direction at which the projected path changes.  A missing
step means that the path never gets there. -/
structure StepLimits (α : Type) where
  /-- The least positive step at which a component meets its bound. -/
  first : Option α
  /-- The step beyond which no component moves any more. -/
  last : Option α

variable {α : Type} [Scalar α] {n : Nat}

/-! ## Step limits -/

/-- The limits of a path on which nothing moves. -/
def StepLimits.still : StepLimits α := ⟨none, some 0⟩

/-- The step comes before a limit that may be missing. -/
def precedes (step : α) : Option α → Bool
  | some limit => decide (step < limit)
  | none => isFinite step

/-- The limits of a path to which a component with the given reach is added. -/
def StepLimits.add (limits : StepLimits α) : Reach α → StepLimits α
  | .still => limits
  | .unlimited => { limits with last := none }
  | .within step =>
    { first := if decide (0 < step) && precedes step limits.first then some step else limits.first
      last := limits.last.map fun last => if last < step then step else last }

namespace Box

/-! ## Boxes from bounds -/

/-- The box that the bounds describe. -/
def ofBounds (bounds : Bounds α) (n : Nat) : Except (Failure α) (Box α n) := do
  let sides ← bounds.resolve n
  .ok { sides, bounded := !bounds.isEmpty }

/-- The whole space. -/
def whole (n : Nat) : Box α n :=
  { sides := Vector.replicate n {}, bounded := false }

/-- Without bounds the box is the whole space. -/
theorem ofBounds_empty (n : Nat) : ofBounds ({} : Bounds α) n = .ok (whole n) := by
  simp [ofBounds, Bounds.resolve_empty, bind, Except.bind, Bounds.isEmpty, Side.isUnbounded, whole]

/-! ## Points -/

/-- The point of the box nearest to the given one. -/
def project (box : Box α n) (x : Vector α n) : Vector α n :=
  if box.bounded then Vector.zipWith Interval.clamp box.sides x else x

/-- The point lies in the box. -/
def contains (box : Box α n) (x : Vector α n) : Bool :=
  (Vector.zipWith Interval.contains box.sides x).toList.all id

/-! ## Gradients -/

/-- The components in which steepest descent can move. -/
def free (box : Box α n) (x g : Vector α n) : Vector Bool n :=
  Vector.zipWith (fun (I, xᵢ) gᵢ => !Interval.blocks I xᵢ gᵢ) (box.sides.zip x) g

/-- The gradient with its blocked components set to zero. -/
def projectedGradient (box : Box α n) (x g : Vector α n) : Vector α n :=
  Vector.zipWith (fun (I, xᵢ) gᵢ => Interval.projectGradient I xᵢ gᵢ) (box.sides.zip x) g

/-- The Euclidean norm of the projected gradient. -/
def projectedGradientNorm (box : Box α n) (x g : Vector α n) : α :=
  sqrt (maskedDot (box.free x g) g g)

/-- The gradient that decides about stationarity: the projected one if there are
bounds, and the gradient itself otherwise. -/
def effectiveGradient (box : Box α n) (x g : Vector α n) : Vector α n :=
  if box.bounded then box.projectedGradient x g else g

/-- The norm of the effective gradient. -/
def effectiveNorm (box : Box α n) (x g : Vector α n) : α :=
  if box.bounded then box.projectedGradientNorm x g else norm2 g

/-! ## Directions -/

/-- The direction with every component set to zero that would leave the box from
an active bound. -/
def projectDirection (box : Box α n) (x d : Vector α n) : Vector α n :=
  if box.bounded then
    Vector.zipWith (fun (I, xᵢ) dᵢ => Interval.projectVelocity I xᵢ dᵢ) (box.sides.zip x) d
  else d

/-- The limits of the projected path from `x` along `d`. -/
def stepLimits (box : Box α n) (x d : Vector α n) : StepLimits α :=
  let reaches := Vector.zipWith (fun (I, xᵢ) dᵢ => Interval.reach I xᵢ dᵢ) (box.sides.zip x) d
  reaches.toList.foldl StepLimits.add .still

/-! ## Components -/

theorem getElem_project (box : Box α n) (h : box.bounded = true) (x : Vector α n) (i : Nat)
    (hi : i < n) :
    (box.project x)[i] = box.sides[i].clamp x[i] := by
  simp [project, h]

/-- The whole space leaves every point where it is. -/
theorem project_whole (x : Vector α n) : (whole n : Box α n).project x = x := by
  simp [project, whole]

theorem getElem_free (box : Box α n) (x g : Vector α n) (i : Nat) (hi : i < n) :
    (box.free x g)[i] = !box.sides[i].blocks x[i] g[i] := by
  simp [free]

theorem getElem_projectedGradient (box : Box α n) (x g : Vector α n) (i : Nat) (hi : i < n) :
    (box.projectedGradient x g)[i] = box.sides[i].projectGradient x[i] g[i] := by
  simp [projectedGradient]

theorem getElem_projectDirection (box : Box α n) (h : box.bounded = true) (x d : Vector α n)
    (i : Nat) (hi : i < n) :
    (box.projectDirection x d)[i] = box.sides[i].projectVelocity x[i] d[i] := by
  simp [projectDirection, h]

end Box

end Descent
