/-
  The ledger: who holds how much of what.

  A transfer moves a coin from one account to another and is written down.  An account that is the
  registered issuer of a denomination may send it without holding it, which creates it: its balance
  then falls below zero by the amount in circulation.  Whatever comes back to the issuer is
  destroyed.

  A savepoint keeps the balances and the length of the list of transfers, not the register of
  issuers.
-/
import WeightedMarket.Action
import WeightedMarket.Table

namespace WeightedMarket

/-- A coin on its way from one account to another. -/
structure Transfer where
  sender : String
  recipient : String
  coin : Coin
  deriving DecidableEq, Repr

/-- The balances in raw units, the register of issuers, and the transfers made so far. -/
structure Ledger where
  balances : Table (String × String) Int
  issuers : List (String × String)
  transfers : List Transfer
  deriving Inhabited, Repr

namespace Ledger

def empty : Ledger := ⟨Table.empty, [], []⟩

/-- The raw balance of an account in a denomination. -/
def held (l : Ledger) (account denom : String) : Int := (l.balances.get? (account, denom)).getD 0

/-- The balance of an account in a denomination. -/
def balance (l : Ledger) (account denom : String) : Fixed := ⟨l.held account denom⟩

/-- Adds to a balance. -/
def credit (l : Ledger) (account denom : String) (raw : Int) : Ledger :=
  { l with balances := l.balances.put (account, denom) (l.held account denom + raw) }

/-- Registers an account as the issuer of a denomination. -/
def register (l : Ledger) (account denom : String) : Ledger :=
  { l with issuers := (account, denom) :: l.issuers }

/-- Whether an account may send a denomination without holding it. -/
def issues (l : Ledger) (account denom : String) : Bool := l.issuers.contains (account, denom)

/-- Credits a coin that no account has sent. -/
def mint (l : Ledger) (account : String) (coin : Coin) : Ledger :=
  l.credit account coin.denom coin.amount.raw

/-- Why a transfer is refused, if it is. -/
def admit? (l : Ledger) (t : Transfer) : Except Failure Unit := do
  require (decide (0 ≤ t.coin.amount.raw)) (.negativeTransfer t.coin)
  require (l.issues t.sender t.coin.denom || decide (t.coin.amount.raw ≤ l.held t.sender t.coin.denom))
    (.shortOfFunds t.sender (l.balance t.sender t.coin.denom) t.coin)

/-- The ledger after a transfer that was admitted. -/
def moved (l : Ledger) (t : Transfer) : Ledger :=
  let l := (l.credit t.sender t.coin.denom (-t.coin.amount.raw)).credit
    t.recipient t.coin.denom t.coin.amount.raw
  { l with transfers := l.transfers ++ [t] }

/-- Makes a transfer. -/
def transfer (t : Transfer) : Action Ledger Unit := do
  let l ← Action.look
  Action.decide (l.admit? t)
  Action.change fun l => l.moved t

/-- What a savepoint keeps of a ledger. -/
structure Savepoint where
  balances : Table (String × String) Int
  count : Nat
  deriving Repr

def save (l : Ledger) : Savepoint := ⟨l.balances, l.transfers.length⟩

/-- The ledger brought back to a savepoint. -/
def restore (l : Ledger) (s : Savepoint) : Ledger :=
  { l with balances := s.balances, transfers := l.transfers.take s.count }

/-- Every balance that is not zero, in the order of accounts and denominations. -/
def holdings (l : Ledger) : List (String × String × Int) :=
  let all := l.balances.entries.filterMap fun e => if e.2 = 0 then none else some (e.1.1, e.1.2, e.2)
  all.mergeSort fun a b => decide (a.1 < b.1) || (a.1 == b.1 && decide (a.2.1 ≤ b.2.1))

/-- A credit changes one balance and no other. -/
theorem held_credit (l : Ledger) (account denom a d : String) (raw : Int) :
    (l.credit account denom raw).held a d =
      l.held a d + if account = a ∧ denom = d then raw else 0 := by
  simp only [held, credit, Table.get?_put, Prod.mk.injEq]
  split
  · next h => obtain ⟨rfl, rfl⟩ := h; simp
  · simp

/-- A transfer takes from the sender what it gives to the recipient, and nothing else moves. -/
theorem held_moved (l : Ledger) (t : Transfer) (a d : String) :
    (l.moved t).held a d = l.held a d
      - (if t.sender = a ∧ t.coin.denom = d then t.coin.amount.raw else 0)
      + (if t.recipient = a ∧ t.coin.denom = d then t.coin.amount.raw else 0) := by
  have : (l.moved t).held a d = ((l.credit t.sender t.coin.denom (-t.coin.amount.raw)).credit
      t.recipient t.coin.denom t.coin.amount.raw).held a d := rfl
  rw [this, held_credit, held_credit]
  split <;> split <;> omega

end Ledger

end WeightedMarket
