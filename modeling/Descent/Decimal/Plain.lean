/-
# Plain decimal text

A floating-point value is written with its shortest digits, in positional form
however large or small it is, and without a point when it is an integer.

* `Decimal.toPlain` : positional notation;
* `PlainText` : scalars that have a text, with both precisions as instances.
-/
import Descent.Decimal.Shortest

namespace Descent

/-! ## Positional notation -/

/-- The decimal `digits · 10 ^ (-places)` without trailing zeros after the point. -/
def trimZeros (digits : Nat) : Nat → Nat × Nat
  | 0 => (digits, 0)
  | places + 1 =>
    if digits % 10 = 0 then trimZeros (digits / 10) places else (digits, places + 1)

/-- A decimal in positional notation. -/
def Decimal.toPlain (d : Decimal) : String :=
  let (digits, places) := trimZeros d.digits (-d.exponent).toNat
  let shown := Nat.toDigits 10 digits ++ List.replicate d.exponent.toNat '0'
  let padded := List.replicate (places + 1 - shown.length) '0' ++ shown
  let whole := padded.take (padded.length - places)
  let fraction := padded.drop (padded.length - places)
  String.ofList (if fraction.isEmpty then whole else whole ++ '.' :: fraction)

/-! ## Floating-point formats -/

/-- The widths of the fields of a binary interchange format. -/
structure BinaryFormat where
  /-- Bits of the fraction. -/
  fractionBits : Nat
  /-- Bits of the exponent. -/
  exponentBits : Nat

/-- Double precision. -/
def binary64 : BinaryFormat := ⟨52, 11⟩

/-- Single precision. -/
def binary32 : BinaryFormat := ⟨23, 8⟩

namespace BinaryFormat

/-- The number of fractions. -/
def fractions (fmt : BinaryFormat) : Nat :=
  Nat.pow 2 fmt.fractionBits

/-- The number of exponents. -/
def exponents (fmt : BinaryFormat) : Nat :=
  Nat.pow 2 fmt.exponentBits

/-- The text of the value that a bit pattern encodes: a sign when its sign bit is
set, then its shortest digits, `inf` or, without a sign, `NaN`. -/
def toPlain (fmt : BinaryFormat) (bits : Nat) : String :=
  let fraction := bits % fmt.fractions
  let field := bits / fmt.fractions % fmt.exponents
  let sign := if bits / (fmt.fractions * fmt.exponents) % 2 = 1 then "-" else ""
  if field + 1 = fmt.exponents then
    if fraction = 0 then sign ++ "inf" else "NaN"
  else
    let mantissa := if field = 0 then fraction else fmt.fractions + fraction
    let bias := fmt.exponents / 2 - 1 + fmt.fractionBits
    if mantissa = 0 then sign ++ "0"
    else
      let value : Binary :=
        { mantissa, exponent := (max field 1 : Nat) - (bias : Nat),
          narrowBelow := fraction == 0 && decide (1 < field) }
      sign ++ value.shortest.toPlain

end BinaryFormat

/-! ## Scalars with a text -/

/-- Scalars that can be written as plain decimal text. -/
class PlainText (α : Type) where
  /-- The shortest decimal text that reads back as the scalar. -/
  text : α → String

export PlainText (text)

instance PlainText.float : PlainText Float where
  text x := binary64.toPlain x.toBits.toNat

instance PlainText.float32 : PlainText Float32 where
  text x := binary32.toPlain x.toBits.toNat

end Descent
