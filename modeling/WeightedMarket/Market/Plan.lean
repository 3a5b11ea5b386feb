/-
  Operations and their plans.

  An operation is planned before anything is touched: the plan holds the pool as it will be and the
  coins that will change hands.  Planning only reads the market.  It passes through three stages,
  *validated*, *computed* and *staged*, and every rule an operation can break is broken on the way.
  Last come the names: the account and the shares of a pool are named after its number, which must be
  short enough to be written.
-/
import WeightedMarket.Market
import WeightedMarket.Market.Converge
import WeightedMarket.Pool.Shares

namespace WeightedMarket

/-- What a trader can ask of a pool. -/
inductive Operation where
  /-- Sells a coin for at least `minimum` of another denomination. -/
  | swapIn (coin : Coin) (denomOut : String) (minimum : Fixed)
  /-- Buys a coin for at most `maximum` of another denomination. -/
  | swapOut (denomIn : String) (maximum : Fixed) (coin : Coin)
  /-- Deposits coins for shares, at least `minimum` of them if given. -/
  | join (coins : List Coin) (minimum : Option Fixed)
  /-- Redeems shares for a part of every reserve. -/
  | exit (shares : Fixed)
  deriving DecidableEq, Repr

/-- An operation that somebody asks of a pool. -/
structure Request where
  sender : String
  pool : Int
  operation : Operation
  deriving DecidableEq, Repr

/-- What an operation answers when it is done. -/
inductive Receipt where
  | amount (a : Fixed)
  | coins (cs : List Coin)
  deriving DecidableEq, Repr

/-- What is to be done: the pool to be stored and the coins to be moved. -/
structure Plan where
  pool : Pool
  event : Event
  receipt : Receipt
  deriving DecidableEq, Repr

namespace Operation

def name : Operation → String
  | .swapIn .. => "swap_exact_amount_in"
  | .swapOut .. => "swap_exact_amount_out"
  | .join .. => "join_pool"
  | .exit _ => "exit_pool"

end Operation

/-- What all journal entries of a request share. -/
def Request.context (r : Request) : Context := ⟨r.operation.name, r.pool, r.sender⟩

/-- The transfers of a plan: first everything paid to the pool, then everything it gives. -/
def Plan.transfers (p : Plan) : List Transfer :=
  p.event.paid.map (fun c => ⟨p.event.sender, p.pool.address, c⟩) ++
    p.event.received.map fun c => ⟨p.pool.address, p.event.sender, c⟩

/-- How far planning has come, and what it has written down. -/
structure Progress where
  last : Option Stage
  entries : List Entry
  deriving DecidableEq, Repr

namespace Progress

def start : Progress := ⟨none, []⟩

/-- Writes an entry. -/
def note (e : Entry) : Action Progress Unit := Action.change fun p => { p with entries := p.entries ++ [e] }

/-- Marks a stage as reached. -/
def advance (context : Context) (stage : Stage) : Action Progress Unit :=
  Action.change fun p => ⟨some stage, p.entries ++ [.reached context stage]⟩

/-- A decision, whose refusal is written down if its cause asks for it. -/
def decide {α : Type} (x : Except Failure α) : Action Progress α := do
  if let .error f := x then
    if let some e := f.note? then note e
  Action.decide x

end Progress

namespace Market

open Progress (advance)

/-- Refuses a coin of which there is nothing. -/
def requirePositive (coin : Coin) : Except Failure Unit :=
  require (Decidable.decide (0 < coin.amount.raw)) (.approx (.requested coin))

/-- Refuses an action while the pool is closed. -/
def requireActive (m : Market) (p : Pool) (action : String) : Except Failure Unit := do
  require (← p.isActive m.clock) (.inactive action p.id m.clock)

/-- The two assets of a swap in the pool that is loaded for it; the pool must be open. -/
def swapSides (m : Market) (pool : Int) (traded : Coin) (denomIn denomOut : String) :
    Except Failure (Pool × Asset × Asset) := do
  require (Decidable.decide (denomIn ≠ denomOut)) (.sameDenom denomIn)
  requirePositive traded
  let p ← m.repository.load pool
  let source ← p.asset denomIn
  let target ← p.asset denomOut
  m.requireActive p "swap"
  return (p, source, target)

/-- Plans the sale of a coin. -/
def planSwapIn (m : Market) (r : Request) (coin : Coin) (denomOut : String) (minimum : Fixed) :
    Action Progress Plan := do
  let (p, source, target) ← Progress.decide (m.swapSides r.pool coin coin.denom denomOut)
  advance r.context .validated
  let out ← Progress.decide (source.amountOut target coin.amount p.swapFee)
  Progress.decide (require (Decidable.decide (minimum ≤ out)) (.belowMinimum denomOut out minimum))
  advance r.context .computed
  let given : Coin := ⟨denomOut, out⟩
  let staged ← Progress.decide (p.trade coin given)
  advance r.context .staged
  Progress.decide (requireWritable p.id)
  return ⟨staged, ⟨.swap, r.pool, r.sender, [coin], [given]⟩, .amount out⟩

/-- What selling an amount would bring; nothing if the engine refuses that sale. -/
def simulateSale (p : Pool) (source target : Asset) (amount : Fixed) : Action Progress (Option Fixed) := do
  match source.amountOut target amount p.swapFee with
  | .ok out => return some out
  | .error f =>
    if f.isEngine then
      discard (Progress.decide amount.written)
      Progress.note (.simulationFailed p.id amount f)
      return none
    else Action.fail f

/-- The input to be charged for a coin: the computed one, raised until selling it brings the coin. -/
def convergedInput (m : Market) (p : Pool) (source target : Asset) (computed : Fixed) (coin : Coin) :
    Action Progress Fixed := do
  match ← converge (simulateSale p source target) computed coin.amount source.decimals
      m.settings.attempts with
  | none => Progress.decide (refuse (.approx (.noInputFound source.denom coin)))
  | some (converged, _) =>
    if converged ≠ computed then
      discard (Progress.decide computed.written)
      discard (Progress.decide converged.written)
      Progress.note (.inputBumped p.id computed converged)
    return converged

/-- Plans the purchase of a coin. -/
def planSwapOut (m : Market) (r : Request) (denomIn : String) (maximum : Fixed) (coin : Coin) :
    Action Progress Plan := do
  let (p, source, target) ← Progress.decide (m.swapSides r.pool coin denomIn coin.denom)
  Progress.decide (require (Decidable.decide (coin.amount < target.balance)) .wholeReserve)
  advance r.context .validated
  let computed ← Progress.decide (target.amountIn source coin.amount p.swapFee)
  let charged ← m.convergedInput p source target computed coin
  Progress.decide (require (Decidable.decide (charged ≤ maximum)) (.aboveMaximum denomIn charged maximum))
  advance r.context .computed
  let taken : Coin := ⟨denomIn, charged⟩
  let staged ← Progress.decide (p.trade taken coin)
  advance r.context .staged
  Progress.decide (requireWritable p.id)
  return ⟨staged, ⟨.swap, r.pool, r.sender, [taken], [coin]⟩, .amount charged⟩

/-- The pool that coins are deposited in; it must be open. -/
def poolToJoin (m : Market) (pool : Int) (coins : List Coin) : Except Failure Pool := do
  coins.forM requirePositive
  let p ← m.repository.load pool
  m.requireActive p "join"
  return p

/-- Plans a deposit. -/
def planJoin (m : Market) (r : Request) (coins : List Coin) (minimum : Option Fixed) :
    Action Progress Plan := do
  let p ← Progress.decide (m.poolToJoin r.pool coins)
  advance r.context .validated
  let joined ← Progress.decide (p.join coins p.swapFee)
  if let some least := minimum then
    Progress.decide (require (Decidable.decide (least ≤ joined.shares))
      (.sharesBelowMinimum joined.shares least))
  advance r.context .computed
  Progress.decide (requireWritable p.id)
  let shares : Coin := ⟨p.shareDenom, joined.shares⟩
  advance r.context .staged
  return ⟨joined.pool, ⟨.join, r.pool, r.sender, coins, [shares]⟩, .amount joined.shares⟩

/-- Plans a redemption. -/
def planExit (m : Market) (r : Request) (shares : Fixed) : Action Progress Plan := do
  let p ← Progress.decide (m.repository.load r.pool)
  advance r.context .validated
  let left ← Progress.decide (p.exit shares p.exitFee)
  advance r.context .computed
  Progress.decide (requireWritable p.id)
  advance r.context .staged
  return ⟨left.pool, ⟨.exit, r.pool, r.sender, [⟨p.shareDenom, shares⟩], left.coins⟩, .coins left.coins⟩

/-- Plans a request. -/
def plan (m : Market) (r : Request) : Action Progress Plan :=
  match r.operation with
  | .swapIn coin denomOut minimum => m.planSwapIn r coin denomOut minimum
  | .swapOut denomIn maximum coin => m.planSwapOut r denomIn maximum coin
  | .join coins minimum => m.planJoin r coins minimum
  | .exit shares => m.planExit r shares

end Market

end WeightedMarket
