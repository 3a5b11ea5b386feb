/-
  Transactions: actions that leave no trace when they are refused.

  A transaction keeps a copy of each of its parts before it starts.  If the action inside is
  refused, every part is brought back from its copy, that is written down, and the refusal goes on.
  The journal, the events and the counted calls stay as they are, and so does the register of
  issuers.
-/
import WeightedMarket.Market

namespace WeightedMarket

/-- A copy of a part. -/
inductive Savepoint where
  | repository (saved : Repository)
  | ledger (saved : Ledger.Savepoint)
  deriving Repr

namespace Market

/-- The copy of a part. -/
def save (m : Market) : Part → Savepoint
  | .repository => .repository m.repository
  | .ledger => .ledger m.ledger.save

/-- The market with one part brought back. -/
def restore (m : Market) : Savepoint → Market
  | .repository saved => { m with repository := m.repository.restore saved }
  | .ledger saved => { m with ledger := m.ledger.restore saved }

/-- The market with all of some copies brought back, one after the other. -/
def rolledBack (m : Market) (saved : List Savepoint) : Market :=
  (saved.foldl restore m).noted (.rolledBack saved.length)

/-- Runs an action in a transaction over some parts. -/
def transaction {α : Type} (parts : List Part) (x : Action Market α) : Action Market α := fun m =>
  match x m with
  | (.ok a, m') => (.ok a, m')
  | (.error f, m') => (.error f, m'.rolledBack (parts.map m.save))

end Market

end WeightedMarket
