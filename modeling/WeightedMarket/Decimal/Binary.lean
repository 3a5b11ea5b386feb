/-
  Decimal values with 53 significant bits.

  A number with a point in a document is taken as the nearest value with 53 significant bits whose
  exponent is at least -1074, and of two equally near ones the one with the even mantissa.  Whether
  such a number counts as an integer is decided after that rounding.
-/
import WeightedMarket.Decimal

namespace WeightedMarket.Decimal

/-- The integer nearest to a quotient; of two equally near ones the even one. -/
def nearestQuotient (num den : Nat) : Nat :=
  let q := num / den
  let r := num % den
  if 2 * r < den ∨ (2 * r = den ∧ q % 2 = 0) then q else q + 1

/-- The exponent of the last of 53 bits of a positive quotient. -/
def lastBit (num den : Nat) : Int :=
  let e : Int := (num.log2 : Int) - den.log2
  let reaches :=
    if 0 ≤ e then decide (den * Nat.pow 2 e.toNat ≤ num) else decide (den ≤ num * Nat.pow 2 (-e).toNat)
  let top := if reaches then e else e - 1
  if top - 52 < -1074 then -1074 else top - 52

/-- A magnitude rounded to 53 bits: the mantissa and the exponent of its last bit. -/
def binaryMagnitude (num den : Nat) : Nat × Int :=
  let k := lastBit num den
  (if 0 ≤ k then nearestQuotient num (den * Nat.pow 2 k.toNat)
    else nearestQuotient (num * Nat.pow 2 (-k).toNat) den, k)

/-- What a value is after rounding to 53 bits. -/
inductive Rounded where
  | integer (n : Int)
  | fraction
  | infinite
  deriving DecidableEq, Repr

/-- Rounds a value to 53 bits; magnitudes from about 1.8 · 10³⁰⁸ on are infinite. -/
def rounded (d : Decimal) : Rounded :=
  if d.coefficient = 0 ∨ d.adjusted < -400 then .integer 0
  else if 400 < d.adjusted then .infinite
  else
    let (m, k) :=
      if 0 ≤ d.exponent then binaryMagnitude (d.coefficient * Nat.pow 10 d.exponent.toNat) 1
      else binaryMagnitude d.coefficient (Nat.pow 10 (-d.exponent).toNat)
    let signed (n : Nat) : Int := if d.negative then -n else n
    if 0 ≤ k then
      if Nat.pow 2 1024 ≤ m * Nat.pow 2 k.toNat then .infinite
      else .integer (signed (m * Nat.pow 2 k.toNat))
    else if m % Nat.pow 2 (-k).toNat = 0 then .integer (signed (m / Nat.pow 2 (-k).toNat))
    else .fraction

example : rounded ⟨true, 60, -1⟩ = .integer (-6) ∧ rounded ⟨false, 65, -1⟩ = .fraction := by
  decide +kernel

end WeightedMarket.Decimal
