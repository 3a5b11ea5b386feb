/-
  Fixed-point operations that refuse arguments outside their domain: a zero divisor, a negative
  integer exponent, a precision outside [0, 18], a number that has no text.
-/
import WeightedMarket.Failure

namespace WeightedMarket

/-- The integer quotient toward zero. -/
def truncatedQuotient (a b : Int) : Except Failure Int :=
  if b = 0 then refuse .zeroTruncatedDivisor else .ok (a.tdiv b)

namespace Fixed

/-- The quotient toward zero. -/
def divide (a b : Fixed) : Except Failure Fixed :=
  if b.raw = 0 then refuse .zeroDivisor else .ok (a.quo b)

/-- The `n`-th power. -/
def powerOf (a : Fixed) (n : Int) : Except Failure Fixed :=
  if n < 0 then refuse (.domain (.negativePower n)) else .ok (a.power n.toNat)

/-- A precision, if there is one of that many places. -/
def precision (decimals : Int) : Except Failure Nat :=
  if 0 ≤ decimals ∧ decimals ≤ 18 then .ok decimals.toNat else refuse (.decimalsRange decimals)

/-- Drops the digits beyond `decimals` places, toward zero. -/
def truncate (a : Fixed) (decimals : Int) : Except Failure Fixed :=
  (precision decimals).map a.truncateTo

/-- Rounds toward positive infinity to `decimals` places. -/
def ceil (a : Fixed) (decimals : Int) : Except Failure Fixed :=
  (precision decimals).map a.ceilTo

/-- The text of a number. -/
def written (a : Fixed) : Except Failure String :=
  if a.printable then .ok a.text else refuse .overflow

theorem divide_eq_ok {a b : Fixed} (h : b.raw ≠ 0) : a.divide b = .ok (a.quo b) := by
  simp [divide, h]

end Fixed

/-- The text of a coin. -/
def Coin.written (c : Coin) : Except Failure String := do
  return (← c.amount.written) ++ c.denom

end WeightedMarket
