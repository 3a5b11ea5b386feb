/-
  Trades against a pool.

  Selling: the fee is taken from the amount paid in, so it stays in the pool, and the invariant
  gives the amount paid out.  Buying: the invariant gives the amount after the fee, and the fee is
  added back.  Either answer is truncated to the precision of its asset and refused if nothing is
  left of it.

  A buyer's amount is truncated too, so selling it may buy a little less than was asked for; the
  market closes that gap before it charges anybody.
-/
import WeightedMarket.Pool.Curve
import WeightedMarket.Pool.Fee

namespace WeightedMarket

namespace Asset

/-- The amount of `target` that selling `amount` of `source` buys. -/
def amountOut (source target : Asset) (amount fee : Fixed) : Except Failure Fixed := do
  let kept ← Fee.afterFee amount fee
  let delta ← Curve.delta source.balance (source.balance + kept) source.weight
    target.balance target.weight
  let out ← delta.truncate target.decimals
  require (decide (0 < out.raw)) (.approx (.received target.denom out))
  return out

/-- The amount of `source` to be sold for `amount` of `target`. -/
def amountIn (target source : Asset) (amount fee : Fixed) : Except Failure Fixed := do
  require (decide (amount < target.balance)) (.beyondReserve ⟨target.denom, amount⟩ target.balance)
  let delta ← Curve.delta target.balance (target.balance - amount) target.weight
    source.balance source.weight
  let paid ← (← Fee.grossUp (-delta) fee).truncate source.decimals
  require (decide (0 < paid.raw)) (.approx (.paid source.denom paid))
  return paid

end Asset

namespace Pool

/-- The two sides of a trade. -/
def sides (p : Pool) (denomIn denomOut : String) : Except Failure (Asset × Asset) := do
  require (decide (denomIn ≠ denomOut)) (.sameDenom denomIn)
  return (← p.asset denomIn, ← p.asset denomOut)

/-- The coin that selling a coin brings. -/
def quoteSale (p : Pool) (coin : Coin) (denomOut : String) (fee : Fixed) : Except Failure Coin := do
  let (source, target) ← p.sides coin.denom denomOut
  return ⟨denomOut, ← source.amountOut target coin.amount fee⟩

/-- The coin to be paid for a coin. -/
def quotePurchase (p : Pool) (coin : Coin) (denomIn : String) (fee : Fixed) : Except Failure Coin := do
  let (source, target) ← p.sides denomIn coin.denom
  return ⟨denomIn, ← target.amountIn source coin.amount fee⟩

/-- The pool after a trade: it takes one coin and gives another. -/
def trade (p : Pool) (taken given : Coin) : Except Failure Pool := do
  let (source, target) ← p.sides taken.denom given.denom
  let left := target.balance - given.amount
  require (decide (0 ≤ left.raw)) (.negativeReserve target.denom left)
  p.withBalances [(source.denom, source.balance + taken.amount), (target.denom, left)]

/-! ## Prices -/

/-- The price of the quote asset in the base asset: the ratio of their weighted balances. -/
def spotPrice (p : Pool) (quote base : String) : Except Failure Fixed := do
  let q ← p.asset quote
  let b ← p.asset base
  let numerator ← b.balance.divide b.weight
  let denominator ← q.balance.divide q.weight
  require (decide (denominator.raw ≠ 0)) (.approx (.worthlessQuote p.id quote))
  numerator.divide denominator

/-- The price that an infinitesimal trade pays, its fee included. -/
def spotPriceWithFee (p : Pool) (quote base : String) : Except Failure Fixed := do
  let price ← p.spotPrice quote base
  return price.mul (← Fixed.one.divide (← Fee.complement p.swapFee))

end Pool

end WeightedMarket
