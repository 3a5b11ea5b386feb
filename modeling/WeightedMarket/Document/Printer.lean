/-
  Documents written as text.

  A pool is written with all its fields, in the order in which they are read.  A pool whose
  amounts have no text cannot be written, and neither can one with a negative number.
-/
import WeightedMarket.Document
import WeightedMarket.Json.Printer

namespace WeightedMarket

/-- The description of an asset. -/
def AssetDocument.ofAsset (a : Asset) : Except Failure AssetDocument := do
  return ⟨a.denom, ← a.balance.written, ← a.weight.written, a.decimals⟩

/-- The value of an asset's description. -/
def AssetDocument.toJson (d : AssetDocument) : Json :=
  .object
    [("denom", .text d.denom), ("balance", .text d.balance), ("weight", .text d.weight),
     ("decimals", .int d.decimals)]

namespace Document

/-- The description of a pool. -/
def ofPool (p : Pool) : Except Failure Document := do
  let assets ← p.assets.mapM AssetDocument.ofAsset
  let totalShares ← p.totalShares.written
  let swapFee ← p.swapFee.written
  let exitFee ← p.exitFee.written
  require (decide (0 ≤ p.id)) (.badFields [⟨[.field "id"], .belowMinimum⟩])
  return ⟨p.id, assets, totalShares, swapFee, exitFee, p.shareDecimals, p.window⟩

/-- The value of a bound of a window. -/
def momentJson : Option Moment → Json
  | none => .null
  | some m => .text (String.ofList m.documentChars)

/-- The value of a window. -/
def windowJson : Option Window → Json
  | none => .null
  | some w => .object [("start", momentJson w.opens), ("end", momentJson w.closes)]

/-- The value of a document. -/
def toJson (d : Document) : Json :=
  .object
    [("id", .int d.id), ("assets", .list (d.assets.map AssetDocument.toJson)),
     ("totalShares", .text d.totalShares), ("swapFee", .text d.swapFee), ("exitFee", .text d.exitFee),
     ("shareDecimals", .int d.shareDecimals), ("activeWindow", windowJson d.window)]

/-- The text of a document. -/
def text (d : Document) : String := d.toJson.pretty

/-- The text of a pool. -/
def write (p : Pool) : Except Failure String := (ofPool p).map text

end Document

end WeightedMarket
