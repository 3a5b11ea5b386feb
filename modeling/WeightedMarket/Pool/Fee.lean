/-
  Proportional fees.

  A fee is taken from what is paid in before the invariant is solved (`afterFee`), or, where the
  invariant has been solved for the amount after the fee, is added back to it (`grossUp`).
-/
import WeightedMarket.Pool

namespace WeightedMarket.Fee

/-- Refuses a fee outside [0, 1). -/
def check (fee : Fixed) : Except Failure Unit := require (decide fee.IsFee) (.feeRange fee)

/-- What is left of one after the fee. -/
def complement (fee : Fixed) : Except Failure Fixed := do
  check fee
  return Fixed.one - fee

/-- An amount less its fee. -/
def afterFee (amount fee : Fixed) : Except Failure Fixed := do
  return amount.mul (← complement fee)

/-- The amount to pay so that `amount` is left after the fee. -/
def grossUp (amount fee : Fixed) : Except Failure Fixed := do
  amount.divide (← complement fee)

end WeightedMarket.Fee
