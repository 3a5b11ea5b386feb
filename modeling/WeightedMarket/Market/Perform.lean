/-
  Performing operations.

  A request is planned, and its plan is committed: the transfers are made in order and the pool is
  stored, in a transaction if the market has one.  Whatever goes wrong until then is a rejection,
  which is written down.  After the commit the operation stands: it is written down and the
  observer is told, and an observer that fails changes nothing.
-/
import WeightedMarket.Market.Plan
import WeightedMarket.Market.Transaction

namespace WeightedMarket.Market

/-- Does what a plan says. -/
def carryOut (p : Plan) : Action Market Unit := do
  p.transfers.forM transfer
  store p.pool

/-- Does what a plan says, in the transaction of the market. -/
def commit (p : Plan) : Action Market Unit := do
  match (← Action.look).scope with
  | some parts => transaction parts (carryOut p)
  | none => carryOut p

/-- Tells the observer of a committed operation. -/
def notify (event : Event) : Action Market Unit := do
  Action.decide ((event.paid ++ event.received).forM fun c => discard c.written)
  note (.committed event)
  match (← Action.look).observer with
  | none => return ()
  | some observer =>
    Action.change fun m => { m with events := m.events ++ [event] }
    if observer = .fails then note (.observerFailed event.kind event.pool)

/-- Plans a request and commits the plan.  The market's journal has got what was written down on
the way, the rejection included; the answer is the plan that was committed. -/
def attempt (r : Request) : Action Market Plan := fun m =>
  let (planned, progress) := m.plan r Progress.start
  let m := { m with journal := m.journal ++ progress.entries }
  match planned with
  | .error f => (.error f, m.noted (.rejected r.context progress.last f))
  | .ok p =>
    match commit p m with
    | (.error f, m) => (.error f, m.noted (.rejected r.context progress.last f))
    | (.ok (), m) => (.ok p, m.noted (.reached r.context .committed))

/-- Performs a request. -/
def perform (r : Request) : Action Market Receipt := do
  let p ← attempt r
  notify p.event
  return p.receipt

/-! ## Questions -/

/-- The price of one denomination in another. -/
def spotPrice (pool : Int) (quote base : String) : Action Market Fixed := do
  decide ((← load pool).spotPrice quote base)

/-- The price of one denomination in another, the swap fee included. -/
def spotPriceWithFee (pool : Int) (quote base : String) : Action Market Fixed := do
  decide ((← load pool).spotPriceWithFee quote base)

/-- Registers the observer of a market that has none. -/
def observe (observer : Observer) : Action Market Unit := do
  Action.decide (require (← Action.look).observer.isNone .observerTaken)
  Action.change fun m => { m with observer := some observer }

end WeightedMarket.Market
