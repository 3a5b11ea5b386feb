/-
  The journal: what the market writes down while it works.

  An entry has a name, a level and named fields.  Operations note every stage they reach, and how
  they end; transactions note that they rolled back; folders of documents note what they stored and
  what they could not read.

  Some causes of refusal are written down where they arise, before anybody decides what to do about
  them: `Failure.note?` is that entry.
-/
import WeightedMarket.Json
import WeightedMarket.Failure

namespace WeightedMarket

/-- How much attention an entry asks for. -/
inductive Level where
  | debug
  | info
  | warning
  | error
  deriving DecidableEq, Repr

def Level.name : Level → String
  | .debug => "debug"
  | .info => "info"
  | .warning => "warning"
  | .error => "error"

/-- The kinds of operations that change a pool. -/
inductive EventKind where
  | swap
  | join
  | exit
  deriving DecidableEq, Repr

def EventKind.name : EventKind → String
  | .swap => "swap"
  | .join => "join"
  | .exit => "exit"

/-- A committed operation: who gave which coins to which pool, and which coins came back. -/
structure Event where
  kind : EventKind
  pool : Int
  sender : String
  paid : List Coin
  received : List Coin
  deriving DecidableEq, Repr

/-- How far an operation has come. -/
inductive Stage where
  | validated
  | computed
  | staged
  | committed
  deriving DecidableEq, Repr

def Stage.name : Stage → String
  | .validated => "validated"
  | .computed => "computed"
  | .staged => "staged"
  | .committed => "committed"

/-- What all entries of one operation share. -/
structure Context where
  operation : String
  pool : Int
  sender : String
  deriving DecidableEq, Repr

/-- An entry of the journal. -/
inductive Entry where
  | reached (context : Context) (stage : Stage)
  | rejected (context : Context) (last : Option Stage) (failure : Failure)
  | committed (event : Event)
  | observerFailed (kind : EventKind) (pool : Int)
  | simulationFailed (pool : Int) (amount : Fixed) (failure : Failure)
  | inputBumped (pool : Int) (computed converged : Fixed)
  | proportionalJoin (pool : Int)
  | worthlessQuote (pool : Int) (denom : String)
  | rolledBack (parts : Nat)
  | documentInvalid (pool : Int) (path : String)
  | documentStored (pool : Int) (path : String)
  deriving DecidableEq, Repr

namespace Entry

def name : Entry → String
  | .reached .. => "pool_operation_stage"
  | .rejected .. => "pool_operation_rejected"
  | .committed _ => "pool_operation_committed"
  | .observerFailed .. => "pool_observer_failed"
  | .simulationFailed .. => "exact_out_forward_simulation_failed"
  | .inputBumped .. => "exact_out_input_bumped"
  | .proportionalJoin _ => "proportional_join_requested"
  | .worthlessQuote .. => "spot_price_zero_quote_balance"
  | .rolledBack _ => "memory_transaction_rolled_back"
  | .documentInvalid .. => "pool_document_invalid"
  | .documentStored .. => "pool_document_stored"

def level : Entry → Level
  | .rejected .. | .committed _ => .info
  | .observerFailed .. => .error
  | .documentInvalid .. => .warning
  | _ => .debug

end Entry

/-- The fields that all entries of an operation share. -/
def Context.fields (c : Context) : List (String × Json) :=
  [("operation", .text c.operation), ("pool_id", .int c.pool), ("sender", .text c.sender)]

/-- Coins as a field. -/
def coinTexts (coins : List Coin) : Json := .list (coins.map fun c => .text c.text)

/-- The fields of an entry. -/
def Entry.fields : Entry → List (String × Json)
  | .reached context stage => context.fields ++ [("stage", .text stage.name)]
  | .rejected context last failure => context.fields ++
      [("stage", .text "rejected"),
       ("reached", (last.map fun s => Json.text s.name).getD .null),
       ("error_type", .text failure.kind.name),
       ("error", .text failure.journalText)]
  | .committed event =>
      [("kind", .text event.kind.name), ("pool_id", .int event.pool), ("sender", .text event.sender),
       ("tokens_in", coinTexts event.paid), ("tokens_out", coinTexts event.received)]
  | .observerFailed kind pool => [("kind", .text kind.name), ("pool_id", .int pool)]
  | .simulationFailed pool amount failure =>
      [("pool_id", .int pool), ("amount_in", .text amount.text), ("error", .text failure.journalText)]
  | .inputBumped pool computed converged =>
      [("pool_id", .int pool), ("computed", .text computed.text), ("converged", .text converged.text)]
  | .proportionalJoin pool => [("pool_id", .int pool)]
  | .worthlessQuote pool denom => [("pool_id", .int pool), ("denom", .text denom)]
  | .rolledBack parts => [("participants", .int parts)]
  | .documentInvalid pool path | .documentStored pool path =>
      [("pool_id", .int pool), ("path", .text path)]

/-- The entry that is written where a refusal arises. -/
def Failure.note? : Failure → Option Entry
  | .badDocument pool path _ => some (.documentInvalid pool path)
  | .approx (.worthlessQuote pool denom) => some (.worthlessQuote pool denom)
  | .proportionalJoin pool => some (.proportionalJoin pool)
  | _ => none

end WeightedMarket
