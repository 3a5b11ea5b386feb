/-
  Coins: an amount of one denomination, written amount first with nothing between.
-/
import WeightedMarket.Fixed.Printer

namespace WeightedMarket

/-- An amount of a single denomination. -/
structure Coin where
  denom : String
  amount : Fixed
  deriving DecidableEq, Inhabited, Repr

namespace Coin

def text (c : Coin) : String := c.amount.text ++ c.denom

instance : ToString Coin := ⟨text⟩

end Coin

end WeightedMarket
