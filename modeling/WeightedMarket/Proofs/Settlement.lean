/-
  What a plan moves.

  A plan holds the pool as it will be and the coins that will change hands, computed by separate
  code.  `Event.gain` is what the coins give the pool's account of each denomination, and the two
  agree (`Planned.settles`): the staged pool is the loaded one shifted by the gains of its reserves
  and by what the account loses of its own shares.
-/
import WeightedMarket.Proofs.Planning

namespace WeightedMarket

open Decision

/-! ## Gains -/

/-- What the pool of an event gains of a denomination: what was paid to it less what it gave. -/
def Event.gain (e : Event) (denom : String) : Int := Coin.total e.paid denom - Coin.total e.received denom

namespace Pool

variable {p : Pool}

/-- Only the changes of a pool's own denominations matter to it. -/
theorem shifted_congr {f g : String → Int} {s t : Int} (h : ∀ d ∈ p.denoms, f d = g d) (hs : s = t) :
    p.shifted f s = p.shifted g t := by
  subst hs
  simp only [shifted, Pool.mk.injEq, true_and, and_true]
  apply List.map_congr_left
  intro a ha
  rw [h a.denom (List.mem_map_of_mem ha)]

end Pool

/-! ## Coins on the ledger -/

namespace Ledger

/-- An account that takes no part in some transfers keeps its balances. -/
theorem held_foldl_of_uninvolved {ts : List Transfer} {account : String}
    (h : ∀ t ∈ ts, t.sender ≠ account ∧ t.recipient ≠ account) (l : Ledger) (denom : String) :
    (ts.foldl moved l).held account denom = l.held account denom := by
  induction ts generalizing l with
  | nil => rfl
  | cons t ts ih =>
    rw [List.forall_mem_cons] at h
    rw [List.foldl_cons, ih h.2, held_moved]
    simp [h.1.1, h.1.2]

/-- Coins that others pay to an account are added to its balances. -/
theorem held_foldl_paid {sender account : String} (hne : sender ≠ account) (coins : List Coin)
    (l : Ledger) (denom : String) :
    ((coins.map fun c => ⟨sender, account, c⟩).foldl moved l).held account denom =
      l.held account denom + Coin.total coins denom := by
  induction coins generalizing l with
  | nil => simp
  | cons c cs ih =>
    rw [List.map_cons, List.foldl_cons, ih, held_moved, Coin.total_cons]
    simp only [hne, false_and, if_false, true_and]
    omega

/-- Coins that an account pays to others are taken from its balances. -/
theorem held_foldl_received {account recipient : String} (hne : recipient ≠ account)
    (coins : List Coin) (l : Ledger) (denom : String) :
    ((coins.map fun c => ⟨account, recipient, c⟩).foldl moved l).held account denom =
      l.held account denom - Coin.total coins denom := by
  induction coins generalizing l with
  | nil => simp
  | cons c cs ih =>
    rw [List.map_cons, List.foldl_cons, ih, held_moved, Coin.total_cons]
    simp only [hne, false_and, if_false, true_and]
    omega

@[simp] theorem issuers_moved (l : Ledger) (t : Transfer) : (l.moved t).issuers = l.issuers := rfl

@[simp] theorem transfers_moved (l : Ledger) (t : Transfer) :
    (l.moved t).transfers = l.transfers ++ [t] := rfl

@[simp] theorem issuers_foldl_moved (ts : List Transfer) (l : Ledger) :
    (ts.foldl moved l).issuers = l.issuers := by
  induction ts generalizing l with
  | nil => rfl
  | cons t ts ih => rw [List.foldl_cons, ih, issuers_moved]

/-- Transfers are recorded in the order in which they are made. -/
@[simp] theorem transfers_foldl_moved (ts : List Transfer) (l : Ledger) :
    (ts.foldl moved l).transfers = l.transfers ++ ts := by
  induction ts generalizing l with
  | nil => simp
  | cons t ts ih => rw [List.foldl_cons, ih, transfers_moved, List.append_assoc, List.singleton_append]

end Ledger

/-- The account of a plan's pool ends up with the gains of its event. -/
theorem Plan.held_address (plan : Plan) (hne : plan.event.sender ≠ plan.pool.address) (l : Ledger)
    (denom : String) :
    (plan.transfers.foldl Ledger.moved l).held plan.pool.address denom =
      l.held plan.pool.address denom + plan.event.gain denom := by
  rw [Plan.transfers, List.foldl_append, Ledger.held_foldl_received hne, Ledger.held_foldl_paid hne,
    Event.gain]
  omega

/-- No account but those of the sender and of the pool takes part. -/
theorem Plan.held_other (plan : Plan) {account : String} (hsender : plan.event.sender ≠ account)
    (hpool : plan.pool.address ≠ account) (l : Ledger) (denom : String) :
    (plan.transfers.foldl Ledger.moved l).held account denom = l.held account denom := by
  apply Ledger.held_foldl_of_uninvolved
  intro t ht
  rcases List.mem_append.mp ht with ht | ht
  · obtain ⟨c, _, rfl⟩ := List.mem_map.mp ht
    exact ⟨hsender, hpool⟩
  · obtain ⟨c, _, rfl⟩ := List.mem_map.mp ht
    exact ⟨hpool, hsender⟩

/-! ## Plans -/

/-- How the coins of a plan and its staged pool belong together, seen from the loaded pool. -/
structure Plan.Settles (p : Pool) (plan : Plan) : Prop where
  valid : plan.pool.Valid
  pool : plan.pool = p.shifted plan.event.gain (-plan.event.gain p.shareDenom)
  positive : ∀ c ∈ plan.event.paid ++ plan.event.received, 0 < c.amount.raw
  denoms : ∀ c ∈ plan.event.paid ++ plan.event.received, c.denom ∈ p.denoms ∨ c.denom = p.shareDenom

namespace Plan.Settles

variable {p : Pool} {plan : Plan}

theorem id (h : plan.Settles p) : plan.pool.id = p.id := by
  rw [h.pool, Pool.id_shifted]

/-- The account of the pool is the same before and after. -/
theorem address (h : plan.Settles p) : plan.pool.address = p.address := by
  rw [h.pool, Pool.address_shifted]

theorem shareDenom (h : plan.Settles p) : plan.pool.shareDenom = p.shareDenom := by
  rw [h.pool, Pool.shareDenom_shifted]

end Plan.Settles

/-- A trade of two assets moves no shares. -/
theorem settles_trade {p staged : Pool} {taken given : Coin} (hp : p.Valid)
    (hshare : p.shareDenom ∉ p.denoms) (htaken : taken.denom ∈ p.denoms)
    (hgiven : given.denom ∈ p.denoms) (htakenPos : 0 < taken.amount.raw)
    (hgivenPos : 0 < given.amount.raw) (h : p.trade taken given = .ok staged) (pool : Int)
    (sender : String) (receipt : Receipt) :
    Plan.Settles p ⟨staged, ⟨.swap, pool, sender, [taken], [given]⟩, receipt⟩ := by
  obtain ⟨hvalid, hpool⟩ := Pool.trade_eq_ok hp h
  have hne (d : String) (hd : d ∈ p.denoms) : d ≠ p.shareDenom := by
    rintro rfl
    exact hshare hd
  refine ⟨hvalid, hpool.trans (Pool.shifted_congr (fun _ _ => rfl) ?_), ?_, ?_⟩
  · simp [Event.gain, hne _ htaken, hne _ hgiven]
  · simp [htakenPos, hgivenPos]
  · simp [htaken, hgiven]

/-- The shares that a deposit issues are all that the pool's account gives for it. -/
theorem settles_join {p : Pool} {coin : Coin} {fee issued : Fixed} {a : Asset} {joined : Pool.Join}
    (hshare : p.shareDenom ∉ p.denoms) (h : p.Deposits coin fee a issued joined) (pool : Int)
    (sender : String) (receipt : Receipt) :
    Plan.Settles p
      ⟨joined.pool, ⟨.join, pool, sender, [coin], [⟨p.shareDenom, joined.shares⟩]⟩, receipt⟩ := by
  have hcoin : coin.denom ∈ p.denoms := Pool.mem_denoms_of_asset h.asset
  have hne : coin.denom ≠ p.shareDenom := by
    intro heq
    exact hshare (heq ▸ hcoin)
  refine ⟨h.valid, h.pool.trans (Pool.shifted_congr ?_ ?_), ?_, ?_⟩
  · intro d hd
    have hd : p.shareDenom ≠ d := by
      rintro rfl
      exact hshare hd
    simp [Event.gain, hd]
  · simp [Event.gain, hne]
  · simp [h.amount_pos, h.shares_pos]
  · simp [hcoin]

/-- The shares that are redeemed are all that the pool's account takes for what it pays. -/
theorem settles_exit {p : Pool} {shares fee refund ratio : Fixed} {left : Pool.Exit}
    (hshare : p.shareDenom ∉ p.denoms) (h : p.Redeems shares fee refund ratio left) (pool : Int)
    (sender : String) (receipt : Receipt) :
    Plan.Settles p
      ⟨left.pool, ⟨.exit, pool, sender, [⟨p.shareDenom, shares⟩], left.coins⟩, receipt⟩ := by
  have hcoins : ∀ c ∈ left.coins, c.denom ∈ p.denoms ∧ 0 < c.amount.raw := by
    intro c hc
    rw [h.coins_eq] at hc
    obtain ⟨a, ha, rfl⟩ := List.mem_map.mp hc
    obtain ⟨hmem, howes⟩ := List.mem_filter.mp ha
    exact ⟨List.mem_map_of_mem hmem, of_decide_eq_true howes⟩
  have hpaid : Coin.total left.coins p.shareDenom = 0 := by
    apply Coin.total_eq_zero
    intro c hc heq
    exact hshare (heq ▸ (hcoins c hc).1)
  refine ⟨h.valid, h.pool.trans (Pool.shifted_congr ?_ ?_), ?_, ?_⟩
  · intro d hd
    have hd : p.shareDenom ≠ d := by
      rintro rfl
      exact hshare hd
    simp [Event.gain, hd]
  · simp [Event.gain, hpaid]
  · intro c hc
    rcases List.mem_cons.mp hc with rfl | hc
    · exact h.shares_pos
    · exact (hcoins c hc).2
  · intro c hc
    rcases List.mem_cons.mp hc with rfl | hc
    · right; rfl
    · left; exact (hcoins c hc).1

namespace Market.Planned

variable {m : Market} {r : Request} {plan : Plan}

/-- The event names the pool and the sender of the request. -/
theorem event_eq (h : m.Planned r plan) : plan.event.pool = r.pool ∧ plan.event.sender = r.sender := by
  cases h <;> exact ⟨rfl, rfl⟩

/-- The pool that a plan is about can be loaded. -/
theorem exists_load (h : m.Planned r plan) : ∃ p, m.repository.load r.pool = .ok p := by
  cases h with
  | swapIn sides => exact ⟨_, sides.load⟩
  | swapOut sides => exact ⟨_, sides.load⟩
  | join load => exact ⟨_, load⟩
  | exit load => exact ⟨_, load⟩

/-- **The coins of a plan pay for its pool**: its reserves move by what its account gains, and its
supply by what the account loses of its shares. -/
theorem settles (h : m.Planned r plan) {p : Pool} (hload : m.repository.load r.pool = .ok p)
    (hp : p.Valid) (hshare : p.shareDenom ∉ p.denoms) : plan.Settles p := by
  cases h with
  | swapIn sides sale enough trade =>
    obtain rfl := Except.ok.inj (sides.load.symm.trans hload)
    obtain ⟨power, hsale⟩ := Asset.amountOut_eq_ok sale
    exact settles_trade hp hshare (Pool.mem_denoms_of_asset sides.source)
      (Pool.mem_denoms_of_asset sides.target) sides.traded_pos hsale.out_pos trade _ _ _
  | swapOut sides available charged_pos sale enough within trade =>
    obtain rfl := Except.ok.inj (sides.load.symm.trans hload)
    exact settles_trade hp hshare (Pool.mem_denoms_of_asset sides.source)
      (Pool.mem_denoms_of_asset sides.target) charged_pos sides.traded_pos trade _ _ _
  | join load active joins enough =>
    obtain rfl := Except.ok.inj (load.symm.trans hload)
    obtain ⟨a, issued, hdeposit⟩ := Pool.joinWith_eq_ok hp joins
    exact settles_join hshare hdeposit _ _ _
  | exit load exits =>
    obtain rfl := Except.ok.inj (load.symm.trans hload)
    obtain ⟨refund, ratio, hredeem⟩ := Pool.exit_eq_ok hp exits
    exact settles_exit hshare hredeem _ _ _

end Market.Planned

end WeightedMarket
