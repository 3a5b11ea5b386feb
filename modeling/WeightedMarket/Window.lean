/-
  Active windows: the half-open time intervals in which a pool accepts trades.

  Either bound may be missing, which leaves that side open.  Bounds and moments that cannot be
  compared, because only one of them has an offset, are refused where they meet.
-/
import WeightedMarket.Failure

namespace WeightedMarket

/-- The interval from `opens`, inclusive, to `closes`, exclusive. -/
structure Window where
  opens : Option Moment
  closes : Option Moment
  deriving DecidableEq, Inhabited, Repr

/-- Whether a moment is before another. -/
def Moment.before (a b : Moment) : Except Failure Bool :=
  match Moment.before? a b with
  | some answer => .ok answer
  | none => refuse .mixedClocks

namespace Window

/-- Refuses a window that closes no later than it opens. -/
def check (w : Window) : Except Failure Unit := do
  match w.opens, w.closes with
  | some a, some b => require (← a.before b) (.badPool .windowOrder)
  | _, _ => return ()

/-- Whether a moment lies in the window; the opening is looked at first. -/
def contains (w : Window) (now : Moment) : Except Failure Bool := do
  if let some a := w.opens then
    if ← now.before a then return false
  match w.closes with
  | some b => now.before b
  | none => return true

end Window

end WeightedMarket
