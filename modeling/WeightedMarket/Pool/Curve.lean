/-
  The weighted invariant.

  A pool keeps the product of its balances, each raised to its weight.  If one balance moves from
  `before` to `after`, another balance `y` must give up

      y · (1 - (before / after) ^ (weight of the moved side / weight of the other side)) .

  The answer is positive if the other side shrinks and negative if it grows.
-/
import WeightedMarket.Fixed.Power

namespace WeightedMarket.Curve

/-- How much the other side gives up when the fixed side moves from `before` to `after`. -/
def delta (before after fixedWeight other otherWeight : Fixed) : Except Failure Fixed := do
  require (decide (0 < after.raw)) (.domain .fixedSideNotPositive)
  require (decide (0 < otherWeight.raw)) (.domain .unknownWeightNotPositive)
  let exponent ← fixedWeight.divide otherWeight
  let ratio ← before.divide after
  return other.mul (Fixed.one - (← ratio.raise exponent))

end WeightedMarket.Curve
