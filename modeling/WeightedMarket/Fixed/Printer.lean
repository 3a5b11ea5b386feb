/-
  The text of a fixed-point number.

  A number is written without an exponent, from its leading 120 digits.  Up to 120 digits of the
  raw value the text has exactly eighteen decimals; beyond that the last digits are dropped, so
  fewer decimals are written and in the end none, with zeros up to the units.

  A raw value of more than 1 000 018 digits has no text: the decimal context cannot hold it.
-/
import WeightedMarket.Decimal
import WeightedMarket.Fixed

namespace WeightedMarket.Fixed

/-- The decimal value of a number, with its leading 120 digits. -/
def toDecimal (a : Fixed) : Decimal :=
  Decimal.shift ⟨decide (a.raw < 0), a.raw.natAbs, 0⟩ (-18)

/-- The digits of the largest raw value that has a text. -/
def maxDigits : Nat := 1000018

/-- Whether the number has a text.  A binary logarithm below three million settles it for every
number of usual size. -/
def printable (a : Fixed) : Bool :=
  decide (a.raw.natAbs.log2 < 3000000) || decide (a.raw.natAbs < Nat.pow 10 maxDigits)

/-- The characters of the text. -/
def chars (a : Fixed) : List Char := a.toDecimal.plain

/-- The text. -/
def text (a : Fixed) : String := String.ofList a.chars

instance : ToString Fixed := ⟨text⟩

/-- The text as messages about single numbers show it. -/
def described (a : Fixed) : String := "Dec('" ++ a.text ++ "')"

example : (⟨-1⟩ : Fixed).text = "-0.000000000000000001" := by decide
example : (ofInt 12).text = "12.000000000000000000" := by decide

end WeightedMarket.Fixed
