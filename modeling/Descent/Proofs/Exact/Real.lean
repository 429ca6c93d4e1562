/-
# Exact arithmetic

The real numbers as scalars: nothing is rounded, and nothing is infinite or undefined.
A vector is then a function of its index, and the operations on vectors are those of
linear algebra.

* `Scalar.real` : the arithmetic;
* `coords`, `coordsOn` : the coordinates of a vector, all or some of them;
* `ofCoordsOn` : the vector with some coordinates given and zeros elsewhere;
* `dot_eq`, `maskedDot_eq` : inner products are inner products of coordinates;
* `dot_pair`, `axpy_pair`, … : the operations in the plane.
-/
import Mathlib
import Descent.Dense

namespace Descent

open Scalar Matrix

/-- The real numbers as scalars. -/
noncomputable instance Scalar.real : Scalar ℝ where
  decidableLT := inferInstance
  decidableLE := inferInstance
  abs := fun x => |x|
  sqrt := Real.sqrt
  isFinite := fun _ => true
  isNaN := fun _ => false

@[simp] theorem isFinite_real (x : ℝ) : isFinite x = true := by
  rfl

@[simp] theorem isNaN_real (x : ℝ) : isNaN x = false := by
  rfl

variable {n : Nat}

/-! ## Sums -/

/-- Without rounding the eight lanes form the sum. -/
theorem sumLanes_eq (p₀ p₁ p₂ p₃ p₄ p₅ p₆ p₇ : ℝ) (terms : List ℝ) :
    sumLanes p₀ p₁ p₂ p₃ p₄ p₅ p₆ p₇ terms =
      p₀ + p₁ + p₂ + p₃ + p₄ + p₅ + p₆ + p₇ + terms.sum := by
  have hfold (first : ℝ) (rest : List ℝ) : rest.foldl (· + ·) first = first + rest.sum := by
    induction rest generalizing first with
    | nil => simp
    | cons t rest ih => rw [List.foldl_cons, ih, List.sum_cons, add_assoc]
  fun_induction sumLanes p₀ p₁ p₂ p₃ p₄ p₅ p₆ p₇ terms with
  | case1 p₀ p₁ p₂ p₃ p₄ p₅ p₆ p₇ a₀ a₁ a₂ a₃ a₄ a₅ a₆ a₇ rest ih =>
    rw [ih]
    simp only [List.sum_cons]
    ring
  | case2 p₀ p₁ p₂ p₃ p₄ p₅ p₆ p₇ rest hshort =>
    rw [hfold]
    ring

/-! ## Coordinates -/

/-- The coordinates of a vector. -/
def coords (x : Vector ℝ n) : Fin n → ℝ :=
  fun i => x[i]

/-- The indices that a mask selects. -/
def Selected (mask : Vector Bool n) : Type :=
  {i : Fin n // mask[i] = true}

instance (mask : Vector Bool n) : Fintype (Selected mask) :=
  inferInstanceAs (Fintype {i : Fin n // mask[i] = true})

instance (mask : Vector Bool n) : DecidableEq (Selected mask) :=
  inferInstanceAs (DecidableEq {i : Fin n // mask[i] = true})

/-- The coordinates that a mask selects. -/
def coordsOn (mask : Vector Bool n) (x : Vector ℝ n) : Selected mask → ℝ :=
  fun i => x[i.1]

/-- The vector with given selected coordinates that is zero elsewhere. -/
noncomputable def ofCoordsOn (mask : Vector Bool n) (v : Selected mask → ℝ) : Vector ℝ n :=
  Vector.ofFn fun i => if h : mask[i] = true then v ⟨i, h⟩ else 0

/-- A vector is determined by its coordinates. -/
theorem coords_injective : Function.Injective (coords (n := n)) := by
  intro x y h
  ext i hi
  exact congrFun h ⟨i, hi⟩

@[simp] theorem coords_ofFn (v : Fin n → ℝ) : coords (Vector.ofFn v) = v := by
  funext i
  simp [coords]

@[simp] theorem coords_axpy (a : ℝ) (x y : Vector ℝ n) :
    coords (axpy a x y) = coords y + a • coords x := by
  funext i
  exact getElem_axpy a x y i i.isLt

@[simp] theorem coords_scale (a : ℝ) (x : Vector ℝ n) : coords (scale a x) = a • coords x := by
  funext i
  exact getElem_scale a x i i.isLt

@[simp] theorem coords_negate (x : Vector ℝ n) : coords (negate x) = -coords x := by
  funext i
  exact getElem_negate x i i.isLt

@[simp] theorem coords_combine (a : ℝ) (x : Vector ℝ n) (b : ℝ) (y : Vector ℝ n) :
    coords (combine a x b y) = a • coords x + b • coords y := by
  funext i
  exact getElem_combine a x b y i i.isLt

@[simp] theorem coords_difference (x y : Vector ℝ n) :
    coords (difference x y) = coords x - coords y := by
  funext i
  exact getElem_difference x y i i.isLt

@[simp] theorem coordsOn_ofCoordsOn (mask : Vector Bool n) (v : Selected mask → ℝ) :
    coordsOn mask (ofCoordsOn mask v) = v := by
  funext i
  exact (Vector.getElem_ofFn i.1.isLt).trans (dif_pos i.2)

theorem getElem_ofCoordsOn_of_masked {mask : Vector Bool n} (v : Selected mask → ℝ) {i : Nat}
    (hi : i < n) (hmask : mask[i] = false) : (ofCoordsOn mask v)[i] = 0 := by
  simp [ofCoordsOn, hmask]

/-- A vector is determined by its selected coordinates where it is zero elsewhere. -/
theorem eq_ofCoordsOn {mask : Vector Bool n} {x : Vector ℝ n} {v : Selected mask → ℝ}
    (hselected : coordsOn mask x = v) (hzero : ∀ i (hi : i < n), mask[i] = false → x[i] = 0) :
    x = ofCoordsOn mask v := by
  ext i hi
  cases hmask : mask[i] with
  | false => rw [hzero i hi hmask, getElem_ofCoordsOn_of_masked v hi hmask]
  | true =>
    have hboth := hselected.trans (coordsOn_ofCoordsOn mask v).symm
    exact congrFun hboth ⟨⟨i, hi⟩, hmask⟩

@[simp] theorem coordsOn_scale (mask : Vector Bool n) (a : ℝ) (x : Vector ℝ n) :
    coordsOn mask (scale a x) = a • coordsOn mask x := by
  funext i
  exact getElem_scale a x i.1 i.1.isLt

@[simp] theorem coordsOn_maskedAxpy (mask : Vector Bool n) (a : ℝ) (x y : Vector ℝ n) :
    coordsOn mask (maskedAxpy mask a x y) = coordsOn mask y + a • coordsOn mask x := by
  funext i
  exact (getElem_maskedAxpy mask a x y i.1 i.1.isLt).trans (if_pos i.2)

/-! ## Inner products -/

/-- The products of the components of two vectors, in order. -/
theorem toList_products (x y : Vector ℝ n) :
    (Vector.zipWith (· * ·) x y).toList = List.ofFn fun i => coords x i * coords y i := by
  refine List.ext_getElem (by simp) ?_
  intro i hi hi'
  simp [coords]

/-- The inner product is that of the coordinates. -/
theorem dot_eq (x y : Vector ℝ n) : dot x y = coords x ⬝ᵥ coords y := by
  rw [dot, sumLanes_eq, toList_products, List.sum_ofFn]
  simp [dotProduct]

/-- The inner product over selected components is the sum of their products. -/
theorem maskedDot_eq_sum (mask : Vector Bool n) (x y : Vector ℝ n) :
    maskedDot mask x y = ∑ i : Fin n, if mask[i] = true then coords x i * coords y i else 0 := by
  have hfold (first : ℝ) (terms : List (Bool × ℝ)) :
      terms.foldl (fun total term => if term.1 then total + term.2 else total) first =
        first + (terms.map fun term => if term.1 then term.2 else 0).sum := by
    induction terms generalizing first with
    | nil => simp
    | cons term terms ih =>
      rw [List.foldl_cons, ih, List.map_cons, List.sum_cons]
      split
      · rw [add_assoc]
      · rw [zero_add]
  have hterms : (mask.toList.zip (Vector.zipWith (· * ·) x y).toList).map
      (fun term => if term.1 then term.2 else 0) =
      List.ofFn fun i : Fin n => if mask[i] then coords x i * coords y i else 0 := by
    refine List.ext_getElem (by simp) ?_
    intro i hi hi'
    simp [coords]
  rw [maskedDot, hfold, hterms, List.sum_ofFn, zero_add]

/-- The inner product over selected components is that of the selected coordinates. -/
theorem maskedDot_eq (mask : Vector Bool n) (x y : Vector ℝ n) :
    maskedDot mask x y = coordsOn mask x ⬝ᵥ coordsOn mask y := by
  rw [maskedDot_eq_sum, ← Finset.sum_filter,
    Finset.sum_subtype (p := fun i : Fin n => mask[i] = true) _ (by simp)]
  rfl

/-! ## The plane -/

theorem dot_pair (a b c d : ℝ) : dot #v[a, b] #v[c, d] = a * c + b * d := by
  simp [dot_eq, dotProduct, coords, Fin.sum_univ_two]

theorem axpy_pair (t a b c d : ℝ) : axpy t #v[a, b] #v[c, d] = #v[c + t * a, d + t * b] := by
  simp [axpy]

theorem difference_pair (a b c d : ℝ) : difference #v[a, b] #v[c, d] = #v[a - c, b - d] := by
  simp [difference]

theorem scale_pair (t a b : ℝ) : scale t #v[a, b] = #v[t * a, t * b] := by
  simp [scale]

theorem negate_pair (a b : ℝ) : negate #v[a, b] = #v[-a, -b] := by
  simp [negate]

end Descent
