/-
# Dense vectors

Inner products, norms and scaled sums of vectors of a fixed dimension.  Rounded
addition is not associative, so every sum says in which order it is formed.

* `dot` : the inner product, its terms collected in eight interleaved lanes;
* `maskedDot` : the inner product over selected components, from left to right;
* `norm2` : the Euclidean norm;
* `getElem_axpy`, `getElem_combine`, … : the vector operations act on each
  component by itself.
-/
import Descent.Scalar

namespace Descent

open Scalar

variable {α : Type} [Scalar α] {n : Nat}

/-! ## Sums -/

/-- The sum of a list from left to right, starting at zero. -/
def sumLeft (terms : List α) : α :=
  terms.foldl (· + ·) 0

/-- The sum of a list whose terms go around eight running totals.  While eight
terms remain each total takes one; then the totals are joined in pairs four
apart, and the terms left over are added one by one. -/
def sumLanes (p₀ p₁ p₂ p₃ p₄ p₅ p₆ p₇ : α) : List α → α
  | a₀ :: a₁ :: a₂ :: a₃ :: a₄ :: a₅ :: a₆ :: a₇ :: rest =>
    sumLanes (p₀ + a₀) (p₁ + a₁) (p₂ + a₂) (p₃ + a₃) (p₄ + a₄) (p₅ + a₅) (p₆ + a₆) (p₇ + a₇) rest
  | rest =>
    rest.foldl (· + ·) (0 + (p₀ + p₄) + (p₁ + p₅) + (p₂ + p₆) + (p₃ + p₇))

/-- A map that respects sums respects those from left to right. -/
theorem map_foldl_add {β : Type} [Scalar β] (φ : β → α) (hadd : ∀ a b, φ (a + b) = φ a + φ b)
    (first : β) (terms : List β) :
    φ (terms.foldl (· + ·) first) = (terms.map φ).foldl (· + ·) (φ first) := by
  induction terms generalizing first with
  | nil => rfl
  | cons t terms ih => rw [List.foldl_cons, ih, hadd, List.map_cons, List.foldl_cons]

/-- A map that respects zero and sums respects sums in lanes. -/
theorem map_sumLanes {β : Type} [Scalar β] (φ : β → α) (hzero : φ 0 = 0)
    (hadd : ∀ a b, φ (a + b) = φ a + φ b) (p₀ p₁ p₂ p₃ p₄ p₅ p₆ p₇ : β) (terms : List β) :
    φ (sumLanes p₀ p₁ p₂ p₃ p₄ p₅ p₆ p₇ terms) =
      sumLanes (φ p₀) (φ p₁) (φ p₂) (φ p₃) (φ p₄) (φ p₅) (φ p₆) (φ p₇) (terms.map φ) := by
  fun_induction sumLanes p₀ p₁ p₂ p₃ p₄ p₅ p₆ p₇ terms with
  | case1 p₀ p₁ p₂ p₃ p₄ p₅ p₆ p₇ a₀ a₁ a₂ a₃ a₄ a₅ a₆ a₇ rest ih =>
    rw [ih]
    simp only [List.map_cons, sumLanes, hadd]
  | case2 p₀ p₁ p₂ p₃ p₄ p₅ p₆ p₇ rest hshort =>
    rw [map_foldl_add φ hadd]
    simp only [hadd, hzero]
    rw [sumLanes]
    intro a₀ a₁ a₂ a₃ a₄ a₅ a₆ a₇ more hmore
    -- eight images come of eight terms
    simp only [List.map_eq_cons_iff] at hmore
    obtain ⟨b₀, _, hrest, -, b₁, _, rfl, -, b₂, _, rfl, -, b₃, _, rfl, -, b₄, _, rfl, -,
      b₅, _, rfl, -, b₆, _, rfl, -, b₇, _, rfl, -, -⟩ := hmore
    exact hshort _ _ _ _ _ _ _ _ _ hrest

/-! ## Inner products and norms -/

/-- The inner product of two vectors. -/
def dot (x y : Vector α n) : α :=
  sumLanes 0 0 0 0 0 0 0 0 (Vector.zipWith (· * ·) x y).toList

/-- The inner product over the components that the mask selects. -/
def maskedDot (mask : Vector Bool n) (x y : Vector α n) : α :=
  (mask.toList.zip (Vector.zipWith (· * ·) x y).toList).foldl
    (fun total term => if term.1 then total + term.2 else total) 0

/-- The Euclidean norm of a vector. -/
def norm2 (x : Vector α n) : α :=
  sqrt (dot x x)

/-! ## Masks -/

/-- The components of a weight vector that are not zero. -/
def support (w : Vector α n) : Vector Bool n :=
  w.map fun wᵢ => !(wᵢ == 0)

/-- One for a selected component and zero for any other. -/
def indicator (selected : Bool) : α :=
  if selected then 1 else 0

/-! ## Sums of vectors -/

/-- The sum `y + a·x`. -/
def axpy (a : α) (x y : Vector α n) : Vector α n :=
  Vector.zipWith (fun xᵢ yᵢ => yᵢ + a * xᵢ) x y

/-- The sum `y + a·x` on the selected components, and `y` on all others. -/
def maskedAxpy (mask : Vector Bool n) (a : α) (x y : Vector α n) : Vector α n :=
  Vector.zipWith (fun selected (xᵢ, yᵢ) => if selected then yᵢ + a * xᵢ else yᵢ) mask (x.zip y)

/-- The sum `a·x + b·y`. -/
def combine (a : α) (x : Vector α n) (b : α) (y : Vector α n) : Vector α n :=
  Vector.zipWith (fun xᵢ yᵢ => a * xᵢ + b * yᵢ) x y

/-- The multiple `a·x`. -/
def scale (a : α) (x : Vector α n) : Vector α n :=
  x.map fun xᵢ => a * xᵢ

/-- The opposite vector. -/
def negate (x : Vector α n) : Vector α n :=
  x.map fun xᵢ => -xᵢ

/-- The difference `x - y`. -/
def difference (x y : Vector α n) : Vector α n :=
  Vector.zipWith (· - ·) x y

/-- The zero vector. -/
def zeros (n : Nat) : Vector α n :=
  Vector.replicate n 0

/-! ## Components -/

theorem getElem_axpy (a : α) (x y : Vector α n) (i : Nat) (hi : i < n) :
    (axpy a x y)[i] = y[i] + a * x[i] := by
  simp [axpy]

theorem getElem_maskedAxpy (mask : Vector Bool n) (a : α) (x y : Vector α n) (i : Nat)
    (hi : i < n) :
    (maskedAxpy mask a x y)[i] = if mask[i] then y[i] + a * x[i] else y[i] := by
  simp [maskedAxpy]

theorem getElem_combine (a : α) (x : Vector α n) (b : α) (y : Vector α n) (i : Nat)
    (hi : i < n) :
    (combine a x b y)[i] = a * x[i] + b * y[i] := by
  simp [combine]

theorem getElem_scale (a : α) (x : Vector α n) (i : Nat) (hi : i < n) :
    (scale a x)[i] = a * x[i] := by
  simp [scale]

theorem getElem_negate (x : Vector α n) (i : Nat) (hi : i < n) :
    (negate x)[i] = -x[i] := by
  simp [negate]

theorem getElem_difference (x y : Vector α n) (i : Nat) (hi : i < n) :
    (difference x y)[i] = x[i] - y[i] := by
  simp [difference]

theorem getElem_zeros (i : Nat) (hi : i < n) :
    (zeros n : Vector α n)[i] = 0 := by
  simp [zeros]

end Descent
