/-
# Shortest decimals

A binary floating-point value stands for every real number that rounds to it.
Of the decimals in that range the shortest has the fewest digits, and of several
that short the one nearest to the value is meant; a tie goes to the larger.

* `Binary` : a positive binary value with the spacing of its neighbours;
* `Decimal` : digits and a power of ten;
* `Binary.shortest` : the shortest decimal, found in exact arithmetic.
-/

namespace Descent

/-! ## Binary and decimal values -/

/-- The positive value `mantissa · 2 ^ exponent`. -/
structure Binary where
  /-- The mantissa, an integer. -/
  mantissa : Nat
  /-- The power of two, which is also the spacing to the next larger value. -/
  exponent : Int
  /-- The next smaller value lies at half the spacing of the next larger one. -/
  narrowBelow : Bool

/-- The value `digits · 10 ^ exponent`. -/
structure Decimal where
  /-- The digits, read as one integer. -/
  digits : Nat
  /-- The power of ten. -/
  exponent : Int
  deriving DecidableEq, Repr

/-- The number of decimal digits of a natural number; zero has none. -/
def digitCount (m : Nat) : Nat :=
  if m = 0 then 0 else (Nat.toDigits 10 m).length

/-! ## The range of a binary value -/

namespace Binary

/-- The denominator over which a value, its spacing and a quarter of it are all
integers. -/
def denominator (v : Binary) : Nat :=
  Nat.pow 2 (2 - v.exponent).toNat

/-- A quarter of the spacing above, over `denominator`. -/
def quarter (v : Binary) : Nat :=
  Nat.pow 2 (v.exponent - 2).toNat

/-- The value, over `denominator`. -/
def numerator (v : Binary) : Nat :=
  4 * v.mantissa * v.quarter

/-- The lower end of the range that rounds to the value, over `denominator`. -/
def lowerEnd (v : Binary) : Nat :=
  v.numerator - (if v.narrowBelow then 1 else 2) * v.quarter

/-- The upper end of the range that rounds to the value, over `denominator`. -/
def upperEnd (v : Binary) : Nat :=
  v.numerator + 2 * v.quarter

/-- The exponent `e` with `10 ^ (e - 1) ≤ v < 10 ^ e`. -/
def magnitude (v : Binary) : Int :=
  if v.denominator ≤ v.numerator then
    digitCount (v.numerator / v.denominator)
  else
    1 - (digitCount ((v.denominator + v.numerator - 1) / v.numerator - 1) : Nat)

/-! ## Decimal grids -/

/-- The better neighbour of the value among the multiples of `10 ^ e`, where one
of its two neighbours rounds to it.  The ends of the range round to the value
exactly when its mantissa is even. -/
def onGrid? (v : Binary) (e : Int) : Option Nat :=
  let finer := Nat.pow 10 (-e).toNat
  let unit := v.denominator * Nat.pow 10 e.toNat
  let value := v.numerator * finer
  let rounds (c : Nat) : Bool :=
    if v.mantissa % 2 = 0 then
      v.lowerEnd * finer ≤ c * unit && c * unit ≤ v.upperEnd * finer
    else
      v.lowerEnd * finer < c * unit && c * unit < v.upperEnd * finer
  let below := value / unit
  match rounds below, rounds (below + 1) with
  | true, true =>
    if value - below * unit < (below + 1) * unit - value then some below else some (below + 1)
  | true, false => some below
  | false, true => some (below + 1)
  | false, false => none

/-- The greatest number of digits that a double-precision value can need. -/
def maxDigits : Nat := 17

/-- The shortest decimal that rounds to the value. -/
def shortest (v : Binary) : Decimal :=
  let grids := (List.range maxDigits).map fun k => v.magnitude - (k + 1 : Nat)
  (grids.findSome? fun e => (v.onGrid? e).map (⟨·, e⟩)).getD ⟨0, 0⟩

end Binary

end Descent
