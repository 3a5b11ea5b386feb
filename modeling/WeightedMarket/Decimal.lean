/-
  Decimal floating-point values: a sign, a coefficient and a power of ten.

  Values are carried through a context of 120 significant digits that rounds down: `cut` keeps the
  leading 120 digits of the coefficient and moves the exponent up by the number of digits dropped.
  A value that is not zero has an *adjusted exponent*, the power of ten of its leading digit; the
  context overflows when that exceeds 999999.

  Two layouts are written.  `plain` never uses an exponent: it shows as many decimals as the
  exponent asks for, or fills with zeros up to the units.  `scientific` is positional as long as
  the exponent is not positive and the number starts within six places of the point, and uses `E`
  with a signed exponent otherwise.
-/
import WeightedMarket.Text.Digit

namespace WeightedMarket

/-- The value `coefficient · 10 ^ exponent`, negated if `negative`. -/
structure Decimal where
  negative : Bool
  coefficient : Nat
  exponent : Int
  deriving DecidableEq, Repr

/-- The ASCII digits of a number, without leading zeros. -/
def digitsOf (n : Nat) : List Char := Nat.toDigits 10 n

/-- How many digits a number has; zero has one. -/
def digitCount (n : Nat) : Nat := (digitsOf n).length

namespace Decimal

/-- Significant digits that the context keeps. -/
def precision : Nat := 120

/-- The largest adjusted exponent of the context. -/
def maxAdjusted : Int := 999999

/-- The power of ten of the leading digit. -/
def adjusted (d : Decimal) : Int := d.exponent + digitCount d.coefficient - 1

/-- Whether the context refuses the value as too large. -/
def overflows (d : Decimal) : Bool := d.coefficient != 0 && decide (maxAdjusted < d.adjusted)

/-- The value with its leading 120 digits only, rounded toward zero. -/
def cut (d : Decimal) : Decimal :=
  let excess := digitCount d.coefficient - precision
  { d with coefficient := d.coefficient / Nat.pow 10 excess, exponent := d.exponent + excess }

/-- The value shifted by `n` places and carried through the context. -/
def shift (d : Decimal) (n : Int) : Decimal := cut { d with exponent := d.exponent + n }

/-- The integer part of the value, toward zero. -/
def toInt (d : Decimal) : Int :=
  let magnitude : Nat :=
    if 0 ≤ d.exponent then d.coefficient * Nat.pow 10 d.exponent.toNat
    else d.coefficient / Nat.pow 10 (-d.exponent).toNat
  if d.negative then -magnitude else magnitude

/-! ## Layouts -/

/-- The digits of `n`, with zeros in front up to `width`. -/
def padded (width n : Nat) : List Char :=
  List.replicate (width - digitCount n) '0' ++ digitsOf n

/-- The magnitude without an exponent. -/
def plainMagnitude (d : Decimal) : List Char :=
  if 0 ≤ d.exponent then digitsOf d.coefficient ++ List.replicate d.exponent.toNat '0'
  else
    let k := (-d.exponent).toNat
    digitsOf (d.coefficient / Nat.pow 10 k) ++ '.' :: padded k (d.coefficient % Nat.pow 10 k)

def sign (d : Decimal) : List Char := if d.negative then ['-'] else []

/-- The value without an exponent. -/
def plain (d : Decimal) : List Char := d.sign ++ d.plainMagnitude

/-- An exponent with its sign. -/
def signedExponent (e : Int) : List Char :=
  (if e < 0 then '-' else '+') :: digitsOf e.natAbs

/-- The value as a positional number or in scientific notation, whichever is usual for it. -/
def scientific (d : Decimal) : List Char :=
  let ds := digitsOf d.coefficient
  let left := d.exponent + ds.length
  if d.exponent ≤ 0 ∧ -6 < left then
    if left ≤ 0 then d.sign ++ '0' :: '.' :: List.replicate (-left).toNat '0' ++ ds
    else if left = ds.length then d.sign ++ ds
    else d.sign ++ ds.take left.toNat ++ '.' :: ds.drop left.toNat
  else
    let fraction := if ds.length = 1 then [] else '.' :: ds.drop 1
    let exponent := if left = 1 then [] else 'E' :: signedExponent (left - 1)
    d.sign ++ ds.take 1 ++ fraction ++ exponent

example : String.ofList (scientific ⟨true, 10, -18⟩) = "-1.0E-17" := by decide
example : String.ofList (plain ⟨false, 123, 5⟩) = "12300000" := by decide
example : String.ofList (plain ⟨true, 5, -3⟩) = "-0.005" := by decide

end Decimal

end WeightedMarket
