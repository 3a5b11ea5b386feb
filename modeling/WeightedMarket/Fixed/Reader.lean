/-
  Fixed-point numbers read from text.

  A numeral is shifted by eighteen places in the decimal context of 120 digits, which rounds
  toward zero, and what is left of it beyond the units is dropped, also toward zero.  A value too
  large for the context overflows; a value below one unit, however small, is zero.
-/
import WeightedMarket.Failure

namespace WeightedMarket.Fixed

/-- The number that a decimal value denotes, toward zero.  A value whose digits all stand behind
the last place is zero at once, so that no large power of ten is ever formed for it. -/
def ofDecimal (d : Decimal) : Except Failure Fixed :=
  let scaled : Decimal := { d with exponent := d.exponent + 18 }
  if d.coefficient = 0 ∨ scaled.adjusted < 0 then .ok zero
  else if scaled.overflows then refuse .overflow
  else .ok ⟨scaled.cut.toInt⟩

/-- The number that a numeral denotes. -/
def ofNumeral (n : Numeral) : Except Failure Fixed :=
  match n with
  | .finite d => ofDecimal d
  | n => refuse (.notFinite n.text)

/-- The numeral that a text is. -/
def numeral (s : String) : Except Failure Numeral :=
  match Numeral.ofText s with
  | .ok n => .ok n
  | .error .form => refuse .numeralForm
  | .error .exponent => refuse .numeralExponent

/-- Reads a number. -/
def ofText (s : String) : Except Failure Fixed :=
  match Numeral.ofText s with
  | .error _ => refuse (.badNumeral s)
  | .ok n => ofNumeral n

example : (ofText "0.0000000000000000019").toOption = some ⟨1⟩ := by decide
example : (ofText "1e999999").toOption = none := by decide

end WeightedMarket.Fixed
