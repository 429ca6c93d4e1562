/-
# Symmetries of vectors

The coordinates of a problem can be put in another order and any of them be reflected, and its
values can be raised by a number.  In exact arithmetic none of this shows in an inner product,
and the operations on vectors respect it.

* `Symmetry` : an order of the coordinates, the reflected ones, and what is added to values;
* `rearrange`, `Symmetry.act` : the symmetry on masks and on vectors;
* `dot_act`, `maskedDot_act`, `norm2_act` : inner products and norms stay the same;
* `axpy_act`, `combine_act`, … : the operations on vectors go along.
-/
import Mathlib
import Descent.Direction.VariableMetric
import Descent.Proofs.Exact.Strict

namespace Descent

open Scalar ExactScalar StrictScalar

/-- Another look at the same problem. -/
structure Symmetry (n : Nat) where
  /-- The old index of each coordinate. -/
  order : Equiv.Perm (Fin n)
  /-- The coordinates that change their sign. -/
  flipped : Fin n → Bool
  /-- What is added to each value. -/
  offset : ℝ

variable {α : Type} {n : Nat}

/-- A vector with its components in another order. -/
def rearrange {β : Type} (order : Equiv.Perm (Fin n)) (v : Vector β n) : Vector β n :=
  Vector.ofFn fun i => v[order i]

@[simp] theorem getElem_rearrange {β : Type} (order : Equiv.Perm (Fin n)) (v : Vector β n) (i : Nat)
    (hi : i < n) : (rearrange order v)[i] = v[order ⟨i, hi⟩] := by
  simp [rearrange]

/-- A rearranged vector has the same components. -/
theorem toList_rearrange {β : Type} (order : Equiv.Perm (Fin n)) (v : Vector β n) :
    (rearrange order v).toList.Perm v.toList := by
  have hlist (w : Vector β n) : w.toList = List.ofFn fun i : Fin n => w[i] := by
    refine List.ext_getElem (by simp) ?_
    intro i hi hi'
    simp
  rw [hlist, hlist]
  simp only [Fin.getElem_fin, getElem_rearrange]
  exact Equiv.Perm.ofFn_comp_perm order fun i => v[i]

/-- What all components pass, all components in another order pass. -/
theorem Symmetry.forall_order (T : Symmetry n) {p : Fin n → Prop} :
    (∀ i (hi : i < n), p (T.order ⟨i, hi⟩)) ↔ ∀ i (hi : i < n), p ⟨i, hi⟩ := by
  rw [← Fin.forall_iff, ← Fin.forall_iff (p := fun i => p (T.order i))]
  exact T.order.surjective.forall.symm

variable [Scalar α]

/-- A scalar or its opposite. -/
def mirror (flip : Bool) (a : α) : α :=
  if flip then -a else a

/-- The components of a vector in another order, some of them reflected. -/
def Symmetry.act (T : Symmetry n) (x : Vector α n) : Vector α n :=
  Vector.ofFn fun i => mirror (T.flipped i) x[T.order i]

theorem Symmetry.getElem_act (T : Symmetry n) (x : Vector α n) (i : Nat) (hi : i < n) :
    (T.act x)[i] = mirror (T.flipped ⟨i, hi⟩) x[T.order ⟨i, hi⟩] := by
  simp [act]

variable [ExactScalar α] [StrictScalar α] (T : Symmetry n)

/-! ## Sums -/

/-- The order of terms does not matter in a sum. -/
theorem foldl_add_perm {terms terms' : List α} (h : terms.Perm terms') (first : α) :
    terms.foldl (· + ·) first = terms'.foldl (· + ·) first :=
  h.foldl_eq first

/-- The sum in eight lanes is the one from left to right. -/
theorem sumLanes_eq_foldl (p₀ p₁ p₂ p₃ p₄ p₅ p₆ p₇ : α) (terms : List α) :
    sumLanes p₀ p₁ p₂ p₃ p₄ p₅ p₆ p₇ terms =
      terms.foldl (· + ·) (p₀ + p₁ + p₂ + p₃ + p₄ + p₅ + p₆ + p₇) := by
  fun_induction sumLanes p₀ p₁ p₂ p₃ p₄ p₅ p₆ p₇ terms with
  | case1 p₀ p₁ p₂ p₃ p₄ p₅ p₆ p₇ a₀ a₁ a₂ a₃ a₄ a₅ a₆ a₇ rest ih =>
    rw [ih]
    simp only [List.foldl_cons]
    congr 1
    ac_rfl
  | case2 p₀ p₁ p₂ p₃ p₄ p₅ p₆ p₇ rest hshort =>
    rw [StrictScalar.zero_add]
    congr 1
    ac_rfl

/-- The products of the components of two vectors are put in another order. -/
theorem products_act (x y : Vector α n) :
    Vector.zipWith (· * ·) (T.act x) (T.act y) =
      rearrange T.order (Vector.zipWith (· * ·) x y) := by
  ext i hi
  simp only [Vector.getElem_zipWith, T.getElem_act, getElem_rearrange, mirror]
  split
  · rw [StrictScalar.neg_mul_neg]
    simp
  · simp

/-- Inner products stay the same. -/
@[simp] theorem dot_act (x y : Vector α n) : dot (T.act x) (T.act y) = dot x y := by
  rw [dot, dot, products_act, sumLanes_eq_foldl, sumLanes_eq_foldl]
  exact foldl_add_perm (toList_rearrange _ _) _

@[simp] theorem sumLeft_act (x y : Vector α n) :
    sumLeft (Vector.zipWith (· * ·) (T.act x) (T.act y)).toList =
      sumLeft (Vector.zipWith (· * ·) x y).toList := by
  rw [products_act]
  exact foldl_add_perm (toList_rearrange _ _) _

@[simp] theorem norm2_act (x : Vector α n) : norm2 (T.act x) = norm2 x := by
  rw [norm2, norm2, dot_act]

/-- Inner products over selected components stay the same. -/
@[simp] theorem maskedDot_act (mask : Vector Bool n) (x y : Vector α n) :
    maskedDot (rearrange T.order mask) (T.act x) (T.act y) = maskedDot mask x y := by
  have hcomm : RightCommutative fun (total : α) (term : Bool × α) =>
      if term.1 then total + term.2 else total := by
    constructor
    rintro total ⟨_ | _, a⟩ ⟨_ | _, b⟩
    · rfl
    · rfl
    · rfl
    · exact (by ac_rfl : total + a + b = total + b + a)
  have hzip (v : Vector α n) : (rearrange T.order mask).toList.zip (rearrange T.order v).toList =
      (rearrange T.order (mask.zip v)).toList := by
    refine List.ext_getElem (by simp) ?_
    intro i hi hi'
    simp
  have hlist (v : Vector α n) : mask.toList.zip v.toList = (mask.zip v).toList := by
    refine List.ext_getElem (by simp) ?_
    intro i hi hi'
    simp
  rw [maskedDot, maskedDot, products_act, hzip, hlist]
  exact (toList_rearrange T.order _).foldl_eq 0

/-! ## Operations -/

omit [StrictScalar α] in
theorem mirror_zero (flip : Bool) : mirror flip (0 : α) = 0 := by
  cases flip with
  | false => rfl
  | true => exact StrictScalar.neg_zero

theorem mirror_add (flip : Bool) (a b : α) :
    mirror flip (a + b) = mirror flip a + mirror flip b := by
  cases flip with
  | false => rfl
  | true => exact (StrictScalar.neg_add_neg a b).symm

theorem mirror_sub (flip : Bool) (a b : α) :
    mirror flip (a - b) = mirror flip a - mirror flip b := by
  cases flip with
  | false => rfl
  | true => exact (StrictScalar.neg_sub_neg a b).symm

theorem mirror_mul (flip : Bool) (a b : α) : mirror flip (a * b) = a * mirror flip b := by
  cases flip with
  | false => rfl
  | true => exact (StrictScalar.mul_neg a b).symm

theorem mirror_mul_right (flip : Bool) (a b : α) : mirror flip (a * b) = mirror flip a * b := by
  cases flip with
  | false => rfl
  | true => exact (StrictScalar.neg_mul a b).symm

@[simp] theorem isFinite_mirror (flip : Bool) (a : α) : isFinite (mirror flip a) = isFinite a := by
  cases flip with
  | false => rfl
  | true => exact isFinite_neg a

@[simp] theorem axpy_act (a : α) (x y : Vector α n) :
    axpy a (T.act x) (T.act y) = T.act (axpy a x y) := by
  ext i hi
  simp only [getElem_axpy, T.getElem_act, Fin.getElem_fin, mirror_add, mirror_mul]

@[simp] theorem maskedAxpy_act (mask : Vector Bool n) (a : α) (x y : Vector α n) :
    maskedAxpy (rearrange T.order mask) a (T.act x) (T.act y) = T.act (maskedAxpy mask a x y) := by
  ext i hi
  simp only [getElem_maskedAxpy, T.getElem_act, Fin.getElem_fin, getElem_rearrange]
  split
  · rw [mirror_add, mirror_mul]
  · rfl

@[simp] theorem combine_act (a : α) (x : Vector α n) (b : α) (y : Vector α n) :
    combine a (T.act x) b (T.act y) = T.act (combine a x b y) := by
  ext i hi
  simp only [getElem_combine, T.getElem_act, Fin.getElem_fin, mirror_add, mirror_mul]

@[simp] theorem scale_act (a : α) (x : Vector α n) : scale a (T.act x) = T.act (scale a x) := by
  ext i hi
  simp only [getElem_scale, T.getElem_act, Fin.getElem_fin, mirror_mul]

omit [ExactScalar α] [StrictScalar α] in
@[simp] theorem negate_act (x : Vector α n) : negate (T.act x) = T.act (negate x) := by
  ext i hi
  simp only [getElem_negate, T.getElem_act, Fin.getElem_fin, mirror]
  split
  · rfl
  · rfl

@[simp] theorem difference_act (x y : Vector α n) :
    difference (T.act x) (T.act y) = T.act (difference x y) := by
  ext i hi
  simp only [getElem_difference, T.getElem_act, Fin.getElem_fin, mirror_sub]

@[simp] theorem restrict_act (mask : Vector Bool n) (g : Vector α n) :
    restrict (rearrange T.order mask) (T.act g) = T.act (restrict mask g) := by
  ext i hi
  simp only [restrict, Vector.getElem_zipWith, T.getElem_act, Fin.getElem_fin, getElem_rearrange,
    mirror_mul_right]

end Descent
