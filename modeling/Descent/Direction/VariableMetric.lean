/-
# Variable metric with limited memory

The inverse of the second derivative is estimated from the last few changes of
point and gradient and applied to the gradient without ever forming a matrix.

* `CurvaturePair` : a displacement and the gradient change along it;
* `admit?`, `learn` : the pairs that are kept;
* `valid_of_mem_learn` : every pair that is kept has positive curvature;
* `applyInverse` : the estimate applied to a vector;
* `metricDirection` : the direction, for each treatment of bounds.
-/
import Descent.Box
import Descent.Recent

namespace Descent

open Scalar

/-- A displacement and the change of the gradient along it. -/
structure CurvaturePair (α : Type) (n : Nat) where
  /-- The displacement. -/
  s : Vector α n
  /-- The gradient change. -/
  y : Vector α n
  /-- The inverse of the curvature along the displacement. -/
  ρ : α

variable {α : Type} [Scalar α] {n : Nat}

/-! ## Supports -/

/-- The components that the metric acts on. -/
inductive Support (n : Nat) where
  /-- All components. -/
  | whole
  /-- The selected components alone. -/
  | only (mask : Vector Bool n)

namespace Support

/-- The inner product over a support. -/
def inner (support : Support n) (x y : Vector α n) : α :=
  match support with
  | whole => dot x y
  | only mask => maskedDot mask x y

/-- The sum `y + a·x` on a support, and `y` elsewhere. -/
def add (support : Support n) (a : α) (x y : Vector α n) : Vector α n :=
  match support with
  | whole => axpy a x y
  | only mask => maskedAxpy mask a x y

end Support

/-! ## Pairs -/

namespace CurvaturePair

/-- The inverse of the curvature along a pair over a support, or zero where the
pair has no positive curvature there. -/
def inverseCurvature (support : Support n) (p : CurvaturePair α n) : α :=
  match support with
  | .whole => p.ρ
  | .only mask =>
    let sy := maskedDot mask p.s p.y
    if 0 < sy then 1 / sy else 0

/-- The size of the inverse second derivative that a pair suggests. -/
def inverseSize (support : Support n) (p : CurvaturePair α n) : α :=
  1 / (p.inverseCurvature support * support.inner p.y p.y)

end CurvaturePair

/-- The size of the inverse second derivative that the newest pair suggests. -/
def newestInverseSize (pairs : List (CurvaturePair α n)) : α :=
  match pairs with
  | [] => 1
  | newest :: _ =>
    let γ := newest.inverseSize .whole
    if isFinite γ ∧ 0 < γ then γ else 1

/-- A gradient change blended with the one that the current estimate predicts, so
that the curvature is a fifth of the predicted one. -/
def damp (pairs : List (CurvaturePair α n)) (s y : Vector α n) : Vector α n :=
  let γ := newestInverseSize pairs
  let predicted := dot s s / γ
  let θ := 0.8 * predicted / (predicted - dot s y)
  axpy ((1 - θ) / γ) s (scale θ y)

/-- A pair of positive and finite curvature. -/
def positivePair? (s y : Vector α n) : Option (CurvaturePair α n) :=
  if 0 < dot s y ∧ isFinite (dot s y) then some { s, y, ρ := 1 / dot s y } else none

/-- The pair that is kept of a displacement and a gradient change.  Without
positive curvature nothing is kept, or the gradient change is damped first. -/
def admit? (c : Config α) (pairs : List (CurvaturePair α n)) (s y : Vector α n) :
    Option (CurvaturePair α n) :=
  if 0 < dot s y then positivePair? s y
  else if c.powell then positivePair? s (damp pairs s y)
  else none

/-- The pairs, newest first, after a displacement and a gradient change. -/
def learn (c : Config α) (pairs : List (CurvaturePair α n)) (s y : Vector α n) :
    List (CurvaturePair α n) :=
  match admit? c pairs s y with
  | some pair => pushRecent c.memory pair pairs
  | none => pairs

/-- The pair has positive and finite curvature, with its inverse on record. -/
structure CurvaturePair.Valid (p : CurvaturePair α n) : Prop where
  /-- The curvature is positive. -/
  pos : 0 < dot p.s p.y
  /-- The curvature is finite. -/
  finite : isFinite (dot p.s p.y) = true
  /-- Its inverse is on record. -/
  inverse : p.ρ = 1 / dot p.s p.y

/-- A pair passes the test for curvature as it is, with the inverse put on record. -/
theorem positivePair?_eq_some_iff {s y : Vector α n} {p : CurvaturePair α n} :
    positivePair? s y = some p ↔ p.s = s ∧ p.y = y ∧ p.Valid := by
  unfold positivePair?
  constructor
  · intro h
    split at h
    · next hpos =>
      cases h
      exact ⟨rfl, rfl, hpos.1, hpos.2, rfl⟩
    · cases h
  · obtain ⟨s', y', ρ⟩ := p
    rintro ⟨rfl, rfl, hpos, hfinite, hinverse⟩
    simp only at hpos hfinite hinverse
    rw [if_pos ⟨hpos, hfinite⟩, hinverse]

/-- Every pair that is kept is valid and has the displacement that was offered. -/
theorem valid_of_admit? {c : Config α} {pairs : List (CurvaturePair α n)} {s y : Vector α n}
    {p : CurvaturePair α n} (h : admit? c pairs s y = some p) : p.s = s ∧ p.Valid := by
  unfold admit? at h
  split at h
  · obtain ⟨hs, -, hvalid⟩ := positivePair?_eq_some_iff.mp h
    exact ⟨hs, hvalid⟩
  · split at h
    · obtain ⟨hs, -, hvalid⟩ := positivePair?_eq_some_iff.mp h
      exact ⟨hs, hvalid⟩
    · cases h

/-- Learning leaves only valid pairs behind. -/
theorem valid_of_mem_learn {c : Config α} {pairs : List (CurvaturePair α n)} {s y : Vector α n}
    (hpairs : ∀ p ∈ pairs, p.Valid) {p : CurvaturePair α n} (hp : p ∈ learn c pairs s y) :
    p.Valid := by
  unfold learn at hp
  split at hp
  · next new hnew =>
    rcases mem_pushRecent hp with rfl | hold
    · exact (valid_of_admit? hnew).2
    · exact hpairs p hold
  · exact hpairs p hp

/-! ## The inverse -/

/-- The estimate of the inverse second derivative applied to a vector.  Each pair,
the newest first, takes its share out of the vector before the older pairs see it
and corrects their result afterwards; in between the vector is scaled by the size
that the newest pair with positive curvature suggests, here `γ`, which is zero
until one is met. -/
def applyInverse (support : Support n) : List (CurvaturePair α n) → α → Vector α n → Vector α n
  | [], γ, v => if isFinite γ ∧ 0 < γ then scale γ v else v
  | p :: older, γ, v =>
    let ρ := p.inverseCurvature support
    if ρ == 0 then applyInverse support older γ v
    else
      let a := ρ * support.inner p.s v
      let γ := if γ == 0 then p.inverseSize support else γ
      let r := applyInverse support older γ (support.add (-a) p.y v)
      let b := ρ * support.inner p.y r
      support.add (a - b) p.s r

/-- Without pairs the estimate leaves a vector as it is. -/
theorem applyInverse_nil (support : Support n) (v : Vector α n) (h : ¬ (0 : α) < 0) :
    applyInverse support [] 0 v = v := by
  simp [applyInverse, h]

/-! ## Directions -/

/-- The gradient with the components outside a mask multiplied by zero. -/
def restrict (mask : Vector Bool n) (g : Vector α n) : Vector α n :=
  Vector.zipWith (fun gᵢ selected => gᵢ * indicator selected) g mask

/-- The direction at `x` for the gradient `g` and its projection `pg`. -/
def metricDirection (c : Config α) (box : Box α n) (pairs : List (CurvaturePair α n))
    (x g pg : Vector α n) : Vector α n :=
  match c.metric with
  | .lbfgs => scale (-1) (applyInverse .whole pairs 0 g)
  | .blmvm => box.projectDirection x (scale (-1) (applyInverse .whole pairs 0 pg))
  | .vmlmb =>
    let mask := box.free x g
    box.projectDirection x (scale (-1) (applyInverse (.only mask) pairs 0 (restrict mask g)))

end Descent
