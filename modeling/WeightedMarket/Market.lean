/-
  The market: pools, a ledger, and what stands around them.

  The ledger can be told to refuse one of its transfers, and the repository to refuse one store,
  counted from the first; every call counts, whatever becomes of it.  Nothing else in the market is
  simulated.
-/
import WeightedMarket.Ledger
import WeightedMarket.Repository
import WeightedMarket.Settings

namespace WeightedMarket

/-- A listener that is told of every committed operation. -/
inductive Observer where
  | records
  /-- Records, and then fails. -/
  | fails
  deriving DecidableEq, Repr

/-- What a transaction can bring back. -/
inductive Part where
  | repository
  | ledger
  deriving DecidableEq, Repr

/-- The calls that are made to fail, counted from zero. -/
structure Faults where
  transfer : Option Nat
  store : Option Nat
  deriving DecidableEq, Repr

def Faults.none : Faults := ⟨.none, .none⟩

/-- The state of the market. -/
structure Market where
  repository : Repository
  ledger : Ledger
  clock : Moment
  settings : Settings
  observer : Option Observer
  /-- The parts of the transaction that commits run in; none if they run in no transaction. -/
  scope : Option (List Part)
  faults : Faults
  transferCalls : Nat
  storeCalls : Nat
  events : List Event
  journal : List Entry
  deriving Repr

namespace Market

/-- The market with an entry added to its journal. -/
def noted (m : Market) (e : Entry) : Market := { m with journal := m.journal ++ [e] }

/-- Adds an entry to the journal. -/
def note (e : Entry) : Action Market Unit := Action.change fun m => m.noted e

/-- A decision, whose refusal is written down if its cause asks for it. -/
def decide {α : Type} (x : Except Failure α) : Action Market α := fun m =>
  match x with
  | .ok a => (.ok a, m)
  | .error f => (.error f, match f.note? with
    | some e => m.noted e
    | none => m)

/-! ## The parts at work -/

/-- An action of the ledger. -/
def onLedger {α : Type} (x : Action Ledger α) : Action Market α := fun m =>
  let (r, ledger) := x m.ledger
  (r, { m with ledger })

/-- An action of the repository. -/
def onRepository {α : Type} (x : Action Repository α) : Action Market α := fun m =>
  let (r, repository) := x m.repository
  (r, { m with repository })

/-- Makes a transfer. -/
def transfer (t : Transfer) : Action Market Unit := do
  let m ← Action.look
  Action.change fun m => { m with transferCalls := m.transferCalls + 1 }
  Action.decide (require (m.faults.transfer != some m.transferCalls) (.simulatedTransfer t.coin))
  onLedger (Ledger.transfer t)

/-- Stores a pool. -/
def store (p : Pool) : Action Market Unit := do
  let m ← Action.look
  Action.change fun m => { m with storeCalls := m.storeCalls + 1 }
  Action.decide (require (m.faults.store != some m.storeCalls) (.storeRefused p.id))
  onRepository (Repository.store p)
  if let some e := m.repository.storeNote? p then note e

/-- Loads a pool. -/
def load (pool : Int) : Action Market Pool := do
  decide ((← Action.look).repository.load pool)

end Market

end WeightedMarket
