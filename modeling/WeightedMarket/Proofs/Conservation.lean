/-
  Nothing is lost on the ledger.

  Balances and the history are changed by separate statements, and a rollback brings back one by a copy
  and the other by cutting it.  `Ledger.Tells` says that the balances can be read off what was minted and
  the history, and `Ledger.Backed` that only issuers owe anything.  A transfer keeps both
  (`Ledger.Tells.moved`, `Ledger.Backed.moved`), an account that pays itself and an issuer included; a
  rollback keeps them because a block only adds to the history and to the register (`Block.kept`).

  A `Chronicle` is a life of the ledger: coins are minted in between blocks, and no block mints.  After
  every one the balances are those of the history, so all accounts together hold what was minted
  (`Chronicle.conserved`).
-/
import WeightedMarket.Proofs.Blocks

namespace WeightedMarket

/-! ## Two readings of the ledger -/

namespace Ledger

/-- Every balance is what was minted for its account and what that has received since, less what it has
sent. -/
def Tells (l : Ledger) (minted : List (String × Coin)) : Prop :=
  ∀ account denom, l.held account denom = Coin.posted minted account denom +
    received l.transfers account denom - sent l.transfers account denom

/-- Whoever holds less than nothing of a denomination issues it. -/
def Backed (l : Ledger) : Prop :=
  ∀ account denom, l.held account denom < 0 → l.issues account denom

variable {l : Ledger} {minted : List (String × Coin)}

/-- A transfer is told by the list of transfers that it joins. -/
theorem Tells.moved (h : l.Tells minted) (t : Transfer) : (l.moved t).Tells minted := by
  intro account denom
  have hheld := h account denom
  rw [held_moved, transfers_moved]
  simp only [received, sent, List.map_append, Coin.posted_append, List.map_singleton,
    Coin.posted_cons, Coin.posted_nil] at hheld ⊢
  omega

theorem Tells.mint (h : l.Tells minted) (account : String) (coin : Coin) :
    (l.mint account coin).Tells (minted ++ [(account, coin)]) := by
  intro a d
  have hheld := h a d
  rw [Ledger.mint, held_credit, Coin.posted_append, Coin.posted_cons, Coin.posted_nil]
  simp only [credit]
  omega

/-- A transfer that is admitted leaves nobody owing who does not issue. -/
theorem Backed.moved (h : l.Backed) {t : Transfer} (hadmitted : l.admit? t = .ok ()) :
    (l.moved t).Backed := by
  intro account denom hneg
  obtain ⟨hamount, hfunds⟩ := admit?_eq_ok.mp hadmitted
  show l.issues account denom
  rw [held_moved] at hneg
  by_cases hsends : t.sender = account ∧ t.coin.denom = denom
  · obtain ⟨rfl, rfl⟩ := hsends
    rcases hfunds with hissues | henough
    · exact hissues
    · -- the sender has the coin, whether or not it comes back to him
      simp only [and_self, if_true, and_true] at hneg
      split at hneg <;> omega
  · apply h account denom
    simp only [hsends, if_false] at hneg
    split at hneg <;> omega

/-- Minting leaves nobody short. -/
theorem Backed.mint (h : l.Backed) (account : String) {coin : Coin} (hcoin : 0 ≤ coin.amount.raw) :
    (l.mint account coin).Backed := by
  intro a d hneg
  apply h a d
  rw [Ledger.mint, held_credit] at hneg
  split at hneg <;> omega

end Ledger

namespace Market

variable {m m' m₁ : Market} {minted : List (String × Coin)} {α : Type} {x : Action Market α}

/-! ## Blocks that do not mint -/

/-- Every call but a mint. -/
def mintless (α : Type) (c : Call α) : Prop := c.mints = false

/-- What a block that does not mint keeps of both readings. -/
structure Kept (minted : List (String × Coin)) (m m' : Market) : Prop where
  grown : Grown m m'
  tells : m.ledger.Tells minted → m'.ledger.Tells minted
  backed : m.ledger.Backed → m'.ledger.Backed

namespace Kept

theorem refl (m : Market) : Kept minted m m := ⟨.refl m, id, id⟩

theorem trans (h : Kept minted m m₁) (h' : Kept minted m₁ m') : Kept minted m m' :=
  ⟨h.grown.trans h'.grown, h'.tells ∘ h.tells, h'.backed ∘ h.backed⟩

/-- A rollback takes balances and history from one moment, and issuers stay issuers. -/
theorem rolledBack (h : Kept minted m m₁) (parts : List Part) :
    Kept minted m (m₁.rolledBack (parts.map m.save)) where
  grown := h.grown.rolledBack parts
  tells := by
    rw [ledger_rolledBack]
    split
    · rw [h.grown.restore_ledger]
      exact id
    · exact h.tells
  backed := by
    rw [ledger_rolledBack]
    split
    · rw [h.grown.restore_ledger]
      exact fun hbacked account denom hneg => h.grown.issues account denom (hbacked account denom hneg)
    · exact h.backed

end Kept

/-- A call that does not mint keeps the ledger told and backed. -/
theorem Call.kept {c : Call α} (hc : mintless α c) (m : Market) : Kept minted m (c.run m).2 := by
  refine ⟨c.grown m, ?_, ?_⟩
  · cases c with
    | mint => cases hc
    | transfer t =>
      rw [run_transfer]
      rcases m.ledger.admit? t with _ | _
      · exact id
      · exact fun h => h.moved t
    | _ => exact id
  · cases c with
    | mint => cases hc
    | register account denom =>
      exact fun h a d hneg => ((Call.register account denom).grown m).issues a d (h a d hneg)
    | transfer t =>
      rw [run_transfer]
      rcases hadmitted : m.ledger.admit? t with _ | _
      · exact id
      · exact fun h => h.moved hadmitted
    | _ => exact id

/-- **A block that does not mint** keeps both readings, however it ends. -/
theorem Block.kept (hx : Block mintless x) (m : Market) : Kept minted m (x m).2 :=
  hx.keeps Kept.refl (fun _ _ _ => Kept.trans) (fun _ _ hc => Call.kept hc)
    (fun _ _ parts h => h.rolledBack parts) m

/-! ## Chronicles -/

/-- What a market can have come to since its ledger was empty: coins that are not negative were minted, in
this order, and in between blocks were run, whatever became of them. -/
inductive Chronicle : List (String × Coin) → Market → Prop
  | start {m : Market} (empty : m.ledger = .empty) : Chronicle [] m
  | mint {minted : List (String × Coin)} {m : Market} (before : Chronicle minted m) (account : String)
      (coin : Coin) (nonneg : 0 ≤ coin.amount.raw) :
      Chronicle (minted ++ [(account, coin)]) ((Call.mint account coin).run m).2
  | block {minted : List (String × Coin)} {m : Market} {α : Type} {x : Action Market α}
      (before : Chronicle minted m) (body : Block mintless x) : Chronicle minted (x m).2

namespace Chronicle

/-- The run lemma: both readings are right at every moment. -/
theorem tells_backed (h : Chronicle minted m) : m.ledger.Tells minted ∧ m.ledger.Backed := by
  induction h with
  | start empty =>
    rw [empty]
    exact ⟨fun _ _ => rfl, fun _ _ hneg => absurd hneg (Int.lt_irrefl 0)⟩
  | mint before account coin nonneg ih =>
    exact ⟨ih.1.mint account coin, ih.2.mint account nonneg⟩
  | @block minted m _ x before body ih =>
    have hkept : Kept minted m (x m).2 := body.kept m
    exact ⟨hkept.tells ih.1, hkept.backed ih.2⟩

/-- **The ledger is conserved.**  Whatever was minted, registered, transferred, refused and rolled back:
every balance is what was minted for its account and what that has received less what it has sent in the
history, all accounts together hold what was minted, and only issuers hold less than nothing. -/
theorem conserved (h : Chronicle minted m) :
    (∀ account denom, m.ledger.held account denom = Coin.posted minted account denom +
      Ledger.received m.ledger.transfers account denom -
        Ledger.sent m.ledger.transfers account denom) ∧
    (∀ denom, (Function.support fun account => m.ledger.held account denom).Finite ∧
      (∑ᶠ account, m.ledger.held account denom) = Coin.total (minted.map (·.2)) denom) ∧
    ∀ account denom, m.ledger.held account denom < 0 → m.ledger.issues account denom := by
  obtain ⟨htells, hbacked⟩ := h.tells_backed
  refine ⟨htells, fun denom => ?_, hbacked⟩
  have hheld : (fun account => m.ledger.held account denom) = fun account =>
      Coin.posted minted account denom + Ledger.received m.ledger.transfers account denom -
        Ledger.sent m.ledger.transfers account denom := funext fun account => htells account denom
  obtain ⟨hminted, hsum⟩ := Coin.finsum_posted minted denom
  have hreceived : (Function.support fun account =>
      Ledger.received m.ledger.transfers account denom).Finite := (Coin.finsum_posted _ denom).1
  have hsent : (Function.support fun account =>
      Ledger.sent m.ledger.transfers account denom).Finite := (Coin.finsum_posted _ denom).1
  have hboth := (hminted.union hreceived).subset (Function.support_add _ _)
  rw [hheld]
  refine ⟨(hboth.union hsent).subset (Function.support_sub _ _), ?_⟩
  rw [finsum_sub_distrib hboth hsent, finsum_add_distrib hminted hreceived, hsum,
    Ledger.finsum_received, add_sub_cancel_right]

/-- An issuer sends what it does not hold, somebody pays himself, and a transaction is refused half way
and caught. -/
def trading : Action Market Unit := do
  (Call.register "bank" "x").run
  (Call.transfer ⟨"bank", "alice", ⟨"x", .ofInt 3⟩⟩).run
  (Call.transfer ⟨"alice", "alice", ⟨"a", .ofInt 2⟩⟩).run
  discard (transaction [.repository, .ledger] do
    (Call.transfer ⟨"alice", "bob", ⟨"a", .ofInt 4⟩⟩).run
    (Call.transfer ⟨"bob", "carol", ⟨"a", .ofInt 9⟩⟩).run).outcome

/-- Five coins are minted and then `trading` is run: the issuer owes what it sent, and nothing else has
come about. -/
theorem trading_conserved : ∃ m, Chronicle [("alice", ⟨"a", .ofInt 5⟩)] m ∧
    m.ledger.transfers.length = 2 ∧
    m.ledger.held "bank" "x" = -3000000000000000000 ∧ m.ledger.issues "bank" "x" ∧
    (∑ᶠ account, m.ledger.held account "x") = 0 ∧
    (∑ᶠ account, m.ledger.held account "a") = 5000000000000000000 := by
  have hbody : Block mintless trading := by
    refine .andThen (.call _ rfl) fun _ => .andThen (.call _ rfl) fun _ => .andThen (.call _ rfl) fun _ =>
      .andThen (.caught (.transaction _ ?_)) fun _ => .answer _
    exact .andThen (.call _ rfl) fun _ => .call _ rfl
  have hstart : Chronicle [] (keeping [] .empty none) := .start rfl
  have hminted := hstart.mint "alice" ⟨"a", .ofInt 5⟩ (by decide)
  have hchronicle := hminted.block hbody
  obtain ⟨_, hsums, hissuers⟩ := conserved hchronicle
  have howed : (trading ((Call.mint "alice" ⟨"a", .ofInt 5⟩).run
      (keeping [] .empty none)).2).2.ledger.held "bank" "x" = -3000000000000000000 := by
    decide +kernel
  refine ⟨_, hchronicle, by decide +kernel, howed, hissuers _ _ ?_, ?_, ?_⟩
  · rw [howed]
    decide
  · exact (hsums "x").2
  · exact (hsums "a").2

end Chronicle

end Market

end WeightedMarket
