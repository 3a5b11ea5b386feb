/-
  Sessions: steps taken on a market, one after the other.

  A step is an operation, a question, or something done to the surroundings: the clock, the ledger,
  the repository and its folder.  Steps can be grouped in a transaction, to any depth; the first of
  them that is refused ends the group, and the group is rolled back.  Besides the market a session
  keeps named copies of its parts.
-/
import WeightedMarket.Market.Perform

namespace WeightedMarket

/-- A step of a session. -/
inductive Step where
  | perform (request : Request)
  | spotPrice (pool : Int) (quote base : String)
  | spotPriceWithFee (pool : Int) (quote base : String)
  | observe (observer : Observer)
  | setClock (now : Moment)
  | transfer (t : Transfer)
  | mint (account : String) (coin : Coin)
  | register (account denom : String)
  | balance (account denom : String)
  | history
  | load (pool : Int)
  | store (pool : Pool)
  | contains (pool : Int)
  | poolIds
  | save (name : String) (parts : List Part)
  | restore (name : String) (parts : List Part)
  | transaction (parts : List Part) (steps : List Step)
  /-- Is refused at once; a step that makes no sense stands for the cause. -/
  | fail (cause : Failure)
  | putFile (name : String) (file : File)
  | fileText (name : String)
  | makeFolder (name : String)
  | removeFolder
  | fileNames
  deriving Inhabited, Repr

/-- What a step answers. -/
inductive Reply where
  | done
  | receipt (r : Receipt)
  | amount (a : Fixed)
  | flag (b : Bool)
  | numbers (ns : List Int)
  | text (s : String)
  | texts (ss : List String)
  | pool (p : Pool)
  | transfers (ts : List Transfer)
  | several (rs : List Reply)
  deriving Inhabited, Repr

/-- A market and the named copies of its parts. -/
structure Session where
  market : Market
  copies : Table String (List (Part × Savepoint))
  deriving Repr

namespace Session

/-- The session that starts on a market. -/
def on (m : Market) : Session := ⟨m, Table.empty⟩

/-- An action of the market. -/
def onMarket {α : Type} (x : Action Market α) : Action Session α := fun s =>
  let (r, market) := x s.market
  (r, { s with market })

/-- A question to the market. -/
def ask {α : Type} (question : Market → Except Failure α) : Action Session α := fun s =>
  (question s.market, s)

/-- An action of the folder of the repository; a shelf has no folder. -/
def onFolder {α : Type} (x : Action Folder α) : Action Session α :=
  onMarket <| Market.onRepository fun r =>
    match r with
    | .shelf _ => (refuse (.file .missing ""), r)
    | .folder d =>
      let (answer, d) := x d
      (answer, .folder d)

/-- Keeps a copy of some parts under a name. -/
def save (name : String) (parts : List Part) : Action Session Unit :=
  Action.change fun s =>
    { s with copies := s.copies.put name (parts.map fun part => (part, s.market.save part)) }

/-- The copy of a part that was kept under a name. -/
def copy (s : Session) (name : String) (part : Part) : Except Failure Savepoint :=
  match ((s.copies.get? name).getD []).find? (·.1 = part) with
  | some (_, saved) => .ok saved
  | none => refuse (.noSavepoint name)

/-- Brings one part back from the copy under a name. -/
def restorePart (name : String) (part : Part) : Action Session Unit := do
  let saved ← Action.decide ((← Action.look).copy name part)
  Action.change fun s => { s with market := s.market.restore saved }

/-- Runs an action in a transaction over parts of the market. -/
def transaction {α : Type} (parts : List Part) (x : Action Session α) : Action Session α := fun s =>
  match x s with
  | (.ok a, s') => (.ok a, s')
  | (.error f, s') =>
    (.error f, { s' with market := s'.market.rolledBack (parts.map s.market.save) })

/-- An action that is done when it answers. -/
def doing (x : Action Session Unit) : Action Session Reply := do
  x
  return .done

end Session

open Session in
mutual

/-- Takes a step. -/
def Step.run : Step → Action Session Reply
  | .perform request => return .receipt (← onMarket (Market.perform request))
  | .spotPrice pool quote base => return .amount (← onMarket (Market.spotPrice pool quote base))
  | .spotPriceWithFee pool quote base =>
    return .amount (← onMarket (Market.spotPriceWithFee pool quote base))
  | .observe observer => doing (onMarket (Market.observe observer))
  | .setClock now => doing (onMarket (Action.change fun m => { m with clock := now }))
  | .transfer t => doing (onMarket (Market.transfer t))
  | .mint account coin =>
    doing (onMarket (Market.onLedger (Action.change fun l => l.mint account coin)))
  | .register account denom =>
    doing (onMarket (Market.onLedger (Action.change fun l => l.register account denom)))
  | .balance account denom => ask fun m => .ok (.amount (m.ledger.balance account denom))
  | .history => ask fun m => .ok (.transfers m.ledger.transfers)
  | .load pool => return .pool (← onMarket (Market.load pool))
  | .store pool => doing (onMarket (Market.store pool))
  | .contains pool => ask fun m => .ok (.flag (m.repository.contains pool))
  | .poolIds => onFolder fun d => (.ok (.numbers d.poolIds), d)
  | .save name parts => doing (Session.save name parts)
  | .restore name parts => doing (parts.forM (restorePart name))
  | .transaction parts steps => return .several (← Session.transaction parts (Step.runAll steps))
  | .fail cause => Action.fail cause.settled
  | .putFile name file => doing (onFolder (Folder.put name file))
  | .fileText name => onFolder fun d => ((d.read name).map .text, d)
  | .makeFolder name => doing (onFolder (Folder.makeFolder name))
  | .removeFolder => doing (onFolder Folder.remove)
  | .fileNames => onFolder fun d => (d.names.map .texts, d)

/-- Takes steps until one is refused. -/
def Step.runAll : List Step → Action Session (List Reply)
  | [] => return []
  | step :: steps => do
    let reply ← Step.run step
    return reply :: (← Step.runAll steps)

end

end WeightedMarket
