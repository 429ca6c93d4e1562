/-
# The two loops

The estimate of the inverse applied to a vector in place.  The first loop goes from
the newest pair to the oldest, takes the share of each out of the vector and puts its
coefficient on a stack; the second one goes back from the oldest pair to the newest
and takes the coefficients off again.

* `Sweep.takeOut`, `putBack` : what the loops do at one pair;
* `twoLoop` : both loops;
* `twoLoop_eq_applyInverse` : they do what the recursion over the pairs does, in any
  arithmetic.
-/
import Descent.Direction.VariableMetric

namespace Descent

open Scalar

variable {α : Type} [Scalar α] {n : Nat}

/-! ## The loops -/

/-- What the first loop works on. -/
structure Sweep (α : Type) (n : Nat) where
  /-- The vector that is changed in place. -/
  vector : Vector α n
  /-- The size of the inverse, zero until a pair suggests one. -/
  size : α
  /-- The coefficients of the pairs met so far, the last one on top. -/
  coefficients : List α

/-- The first loop at one pair. -/
def Sweep.takeOut (support : Support n) (w : Sweep α n) (p : CurvaturePair α n) : Sweep α n :=
  let ρ := p.inverseCurvature support
  if ρ == 0 then { w with coefficients := 0 :: w.coefficients }
  else
    let a := ρ * support.inner p.s w.vector
    { vector := support.add (-a) p.y w.vector
      size := if w.size == 0 then p.inverseSize support else w.size
      coefficients := a :: w.coefficients }

/-- The second loop at one pair and its coefficient. -/
def putBack (support : Support n) (v : Vector α n) (entry : CurvaturePair α n × α) :
    Vector α n :=
  let ρ := entry.1.inverseCurvature support
  if ρ == 0 then v
  else
    let b := ρ * support.inner entry.1.y v
    support.add (entry.2 - b) entry.1.s v

/-- A vector scaled by the size of the inverse, where one was found. -/
def rescale (size : α) (v : Vector α n) : Vector α n :=
  if isFinite size ∧ 0 < size then scale size v else v

/-- The two loops over the pairs, which are given newest first. -/
def twoLoop (support : Support n) (pairs : List (CurvaturePair α n)) (v : Vector α n) :
    Vector α n :=
  let w := pairs.foldl (Sweep.takeOut support) { vector := v, size := 0, coefficients := [] }
  (pairs.reverse.zip w.coefficients).foldl (putBack support) (rescale w.size w.vector)

/-! ## The recursion -/

/-- At one pair the first loop puts a coefficient on the stack, and with this one the
second loop turns the result for the older pairs into the result for all. -/
theorem exists_coefficient (support : Support n) (p : CurvaturePair α n) (w : Sweep α n) :
    ∃ a, (w.takeOut support p).coefficients = a :: w.coefficients ∧
      ∀ older, putBack support
          (applyInverse support older (w.takeOut support p).size (w.takeOut support p).vector)
          (p, a) =
        applyInverse support (p :: older) w.size w.vector := by
  unfold Sweep.takeOut putBack
  by_cases hzero : (p.inverseCurvature support == 0) = true
  · refine ⟨0, ?_, ?_⟩
    · simp only [hzero, if_true]
    · intro older
      simp only [applyInverse, hzero, if_true]
  · refine ⟨p.inverseCurvature support * support.inner p.s w.vector, ?_, ?_⟩
    · simp only [hzero, Bool.false_eq_true, if_false]
    · intro older
      simp only [applyInverse, hzero, Bool.false_eq_true, if_false]

/-- The first loop puts one coefficient for each pair on the stack and leaves what is
below alone; the second loop, with the coefficients put there, does what the recursion
does. -/
theorem exists_coefficients (support : Support n) (pairs : List (CurvaturePair α n))
    (w : Sweep α n) :
    ∃ added, (pairs.foldl (Sweep.takeOut support) w).coefficients = added ++ w.coefficients ∧
      added.length = pairs.length ∧
      (pairs.reverse.zip added).foldl (putBack support)
          (rescale (pairs.foldl (Sweep.takeOut support) w).size
            (pairs.foldl (Sweep.takeOut support) w).vector) =
        applyInverse support pairs w.size w.vector := by
  induction pairs generalizing w with
  | nil => exact ⟨[], rfl, rfl, rfl⟩
  | cons p older ih =>
    obtain ⟨added, hstack, hlength, hsame⟩ := ih (w.takeOut support p)
    -- the coefficient of the pair lies below those of the older ones
    obtain ⟨a, hcoefficient, hput⟩ := exists_coefficient support p w
    refine ⟨added ++ [a], ?_, ?_, ?_⟩
    · rw [List.foldl_cons, hstack, hcoefficient, List.append_assoc]
      rfl
    · rw [List.length_append, hlength]
      rfl
    · have hzip : (p :: older).reverse.zip (added ++ [a]) = older.reverse.zip added ++ [(p, a)] := by
        rw [List.reverse_cons, List.zip_append (by rw [List.length_reverse, hlength])]
        rfl
      simp only [hzip, List.foldl_append, List.foldl_cons, List.foldl_nil]
      rw [hsame, hput]

/-- The two loops do what the recursion over the pairs does. -/
theorem twoLoop_eq_applyInverse (support : Support n) (pairs : List (CurvaturePair α n))
    (v : Vector α n) : twoLoop support pairs v = applyInverse support pairs 0 v := by
  obtain ⟨added, hstack, -, hsame⟩ :=
    exists_coefficients support pairs { vector := v, size := 0, coefficients := [] }
  unfold twoLoop
  dsimp only
  rw [hstack, List.append_nil]
  exact hsame

end Descent
