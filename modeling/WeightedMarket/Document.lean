/-
  Pool documents: pools as objects of JSON.

  Amounts are kept as the texts they were written as, so that no amount ever passes through a
  number of limited precision.  A document holds what its fields said; whether that makes a pool is
  decided in `Document.toPool`, which applies the rules of pools.
-/
import WeightedMarket.Json
import WeightedMarket.Moment.Epoch
import WeightedMarket.Pool
import WeightedMarket.Fixed.Reader

namespace WeightedMarket

/-- An asset as a document describes it. -/
structure AssetDocument where
  denom : String
  balance : String
  weight : String
  decimals : Int
  deriving DecidableEq, Repr

/-- A pool as a document describes it. -/
structure Document where
  id : Int
  assets : List AssetDocument
  totalShares : String
  swapFee : String
  exitFee : String
  shareDecimals : Int
  window : Option Window
  deriving DecidableEq, Repr

/-- The text of a value that stands for an amount: a text that is a finite numeral, unchanged, or an
integer that can be written. -/
def amountText : Json → Except Failure String
  | .text s =>
    match Numeral.ofText s with
    | .ok (.finite _) => .ok s
    | .ok _ => refuse (.amountNotFinite s)
    | .error _ => refuse (.amountForm s)
  | .int n => do
    requireWritable n
    return toString n
  | v => refuse (.amountType v.typeName)

/-- The asset that a document describes. -/
def AssetDocument.toAsset (d : AssetDocument) : Except Failure Asset := do
  let balance ← Fixed.ofText d.balance
  let weight ← Fixed.ofText d.weight
  Asset.checked ⟨d.denom, balance, weight, d.decimals⟩

/-- The pool that a document describes. -/
def Document.toPool (d : Document) : Except Failure Pool := do
  let window ← d.window.mapM Window.checked
  let assets ← d.assets.mapM AssetDocument.toAsset
  let totalShares ← Fixed.ofText d.totalShares
  let swapFee ← Fixed.ofText d.swapFee
  let exitFee ← Fixed.ofText d.exitFee
  Pool.checked ⟨d.id, assets, totalShares, swapFee, exitFee, window, d.shareDecimals⟩

end WeightedMarket
