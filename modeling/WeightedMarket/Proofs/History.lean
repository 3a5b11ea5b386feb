/-
  Balances read off a history.

  The ledger keeps its balances and the list of its transfers side by side.  Here the list is read as
  postings: `received` and `sent` add up the coins that an account takes and gives in it.  Making
  transfers moves every balance by the difference (`held_foldl_moved`), also where an account pays
  itself, and what all accounts are posted together is what the coins of the list amount to
  (`finsum_posted`).
-/
import Mathlib.Algebra.BigOperators.Finprod
import WeightedMarket.Proofs.Settlement

namespace WeightedMarket

open Decision

/-! ## Postings -/

namespace Coin

/-- How much of a denomination some postings add up to for an account. -/
def posted (postings : List (String × Coin)) (account denom : String) : Int :=
  total ((postings.filter fun e => e.1 = account).map (·.2)) denom

variable {account denom : String}

@[simp] theorem posted_nil : posted [] account denom = 0 := rfl

@[simp] theorem posted_cons (e : String × Coin) (es : List (String × Coin)) :
    posted (e :: es) account denom =
      (if e.1 = account ∧ e.2.denom = denom then e.2.amount.raw else 0) + posted es account denom := by
  by_cases haccount : e.1 = account <;> simp [posted, haccount]

@[simp] theorem posted_append (es es' : List (String × Coin)) :
    posted (es ++ es') account denom = posted es account denom + posted es' account denom := by
  induction es with
  | nil => simp
  | cons e es ih => rw [List.cons_append, posted_cons, posted_cons, ih, Int.add_assoc]

/-- One posting is somebody's. -/
theorem finsum_single (e : String × Coin) (denom : String) :
    (Function.support fun account => if e.1 = account ∧ e.2.denom = denom then e.2.amount.raw else 0).Finite ∧
      (∑ᶠ account, if e.1 = account ∧ e.2.denom = denom then e.2.amount.raw else 0) =
        if e.2.denom = denom then e.2.amount.raw else 0 := by
  constructor
  · refine (Set.finite_singleton e.1).subset fun account h => ?_
    by_contra hne
    exact h (if_neg fun hboth => hne hboth.1.symm)
  · rw [finsum_eq_single _ e.1 fun account hne => if_neg fun hboth => hne hboth.1.symm]
    simp

/-- **What all accounts are posted** is what the coins of the postings amount to. -/
theorem finsum_posted (postings : List (String × Coin)) (denom : String) :
    (Function.support fun account => posted postings account denom).Finite ∧
      (∑ᶠ account, posted postings account denom) = total (postings.map (·.2)) denom := by
  induction postings with
  | nil => simp
  | cons e es ih =>
    obtain ⟨hfinite, hsum⟩ := ih
    obtain ⟨hone, hval⟩ := finsum_single e denom
    simp only [posted_cons]
    refine ⟨(hone.union hfinite).subset (Function.support_add _ _), ?_⟩
    rw [finsum_add_distrib hone hfinite, hsum, hval, List.map_cons, total_cons]

end Coin

/-! ## Transfers -/

namespace Ledger

/-- A transfer is admitted if it is not of a negative amount, and its sender has the coin or issues it. -/
theorem admit?_eq_ok {l : Ledger} {t : Transfer} : l.admit? t = .ok () ↔
    0 ≤ t.coin.amount.raw ∧
      (l.issues t.sender t.coin.denom ∨ t.coin.amount.raw ≤ l.held t.sender t.coin.denom) := by
  rw [admit?, check_seq_eq_ok, require_eq_ok, require_eq_ok, decide_eq_true_eq, Bool.or_eq_true,
    decide_eq_true_eq]

/-- What an account receives of a denomination in some transfers. -/
def received (ts : List Transfer) (account denom : String) : Int :=
  Coin.posted (ts.map fun t => (t.recipient, t.coin)) account denom

/-- What an account sends of a denomination in some transfers. -/
def sent (ts : List Transfer) (account denom : String) : Int :=
  Coin.posted (ts.map fun t => (t.sender, t.coin)) account denom

/-- **Transfers that are made** move every balance by what its account receives less what it sends. -/
theorem held_foldl_moved (ts : List Transfer) (l : Ledger) (account denom : String) :
    (ts.foldl moved l).held account denom =
      l.held account denom + received ts account denom - sent ts account denom := by
  induction ts generalizing l with
  | nil => simp [received, sent]
  | cons t ts ih =>
    rw [List.foldl_cons, ih, held_moved]
    simp only [received, sent, List.map_cons, Coin.posted_cons]
    omega

/-- What all accounts receive is what they all send. -/
theorem finsum_received (ts : List Transfer) (denom : String) :
    (∑ᶠ account, received ts account denom) = ∑ᶠ account, sent ts account denom := by
  have hcoins : (ts.map fun t => (t.recipient, t.coin)).map (·.2) =
      (ts.map fun t => (t.sender, t.coin)).map (·.2) := by
    rw [List.map_map, List.map_map]
    rfl
  simp only [received, sent]
  rw [(Coin.finsum_posted _ denom).2, (Coin.finsum_posted _ denom).2, hcoins]

end Ledger

end WeightedMarket
