/-
  Shares of a pool: joining and leaving it.

  A deposit of one asset raises the invariant by the factor (x'/x) ^ w, where w is the asset's part
  of the total weight, and the supply of shares follows the invariant.  Only the part of the
  deposit that is in effect swapped into the other assets pays the swap fee.

  Whoever leaves redeems shares for the same part of every reserve.  The exit fee reduces what is
  paid out, while all the shares given in are burned, so what is withheld falls to the remaining
  holders.
-/
import WeightedMarket.Pool.Trade

namespace WeightedMarket.Pool

/-- The shares issued for a deposit of `amount` into a reserve of `balance`. -/
def sharesForDeposit (balance part shares amount fee : Fixed) : Except Failure Fixed := do
  let kept := amount.mul (← Fee.complement ((Fixed.one - part).mul fee))
  return -(← Curve.delta (balance + kept) balance part shares Fixed.one)

/-- What a join brings: the shares issued, and the pool afterwards. -/
structure Join where
  shares : Fixed
  pool : Pool
  deriving DecidableEq, Repr

/-- Joins with a deposit of one asset. -/
def joinWith (p : Pool) (coin : Coin) (fee : Fixed) : Except Failure Join := do
  Fee.check fee
  let a ← p.asset coin.denom
  require (decide (0 < coin.amount.raw)) (.approx (.deposited coin))
  let part ← a.weight.divide p.totalWeight
  let shares ← (← sharesForDeposit a.balance part p.totalShares coin.amount fee).truncate p.shareDecimals
  require (decide (0 < shares.raw)) (.approx (.issued shares))
  let q ← p.withBalances [(a.denom, a.balance + coin.amount)]
  return ⟨shares, ← q.withTotalShares (p.totalShares + shares)⟩

/-- Joins with coins: one coin is a deposit of one asset, and every asset once is a proportional
deposit, which is reserved and refused by name; any other choice is refused. -/
def join (p : Pool) (coins : List Coin) (fee : Fixed) : Except Failure Join := do
  coins.forM fun coin => discard (p.asset coin.denom)
  match coins with
  | [coin] => p.joinWith coin fee
  | _ =>
    let denoms := coins.map (·.denom)
    require (decide (coins.length = p.assets.length) && decide denoms.Nodup)
      (.joinShape p.id p.assets.length denoms)
    refuse (.proportionalJoin p.id)

/-- What an exit brings: the coins paid out, and the pool afterwards. -/
structure Exit where
  coins : List Coin
  pool : Pool
  deriving DecidableEq, Repr

/-- The shares that are paid out for `shares` after the exit fee. -/
def refunded (p : Pool) (shares fee : Fixed) : Except Failure Fixed := do
  if fee.raw = 0 then return shares
  (shares.mul (← Fee.complement fee)).truncate p.shareDecimals

/-- What an asset pays for a part of the shares; nothing if less than a unit of it is due. -/
def payment? (ratio : Fixed) (a : Asset) : Except Failure (Option Coin) := do
  let amount ← (ratio.mul a.balance).truncate a.decimals
  return if 0 < amount.raw then some ⟨a.denom, amount⟩ else none

/-- Redeems shares for a part of every reserve. -/
def exit (p : Pool) (shares fee : Fixed) : Except Failure Exit := do
  Fee.check fee
  require (decide (shares < p.totalShares)) (.redeemsAll shares p.totalShares)
  require (decide (0 < shares.raw)) (.approx (.redeemed shares))
  let ratio ← (← p.refunded shares fee).divide p.totalShares
  let payments ← p.assets.mapM fun a => do return (a, ← payment? ratio a)
  let paid := payments.filterMap fun (a, coin?) => coin?.map fun coin => (a, coin)
  let coins := paid.map (·.2)
  require (!coins.isEmpty) (.approx (.withdrawsNothing shares))
  let q ← p.withBalances (paid.map fun (a, coin) => (a.denom, a.balance - coin.amount))
  return ⟨coins, ← q.withTotalShares (p.totalShares - shares)⟩

end WeightedMarket.Pool
