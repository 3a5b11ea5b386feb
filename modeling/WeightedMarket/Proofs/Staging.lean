/-
  What the operations of a pool stage.

  A trade, a deposit and a redemption all stage the same kind of pool: every balance is moved by
  the coins of its denomination that came in less those that went out, the supply is moved by the
  shares issued less those redeemed, and nothing else changes.  `Pool.shifted` is that pool.  The
  main statements, one for each operation (`trade_eq_ok`, `joinWith_eq_ok`, `exit_eq_ok`), say
  everything that a successful operation has checked and that its pool is a shifted one.
-/
import Mathlib.Algebra.Order.Ring.Int
import Mathlib.Data.List.Nodup
import WeightedMarket.Pool.Shares
import WeightedMarket.Proofs.Decision

namespace WeightedMarket

open Decision

/-! ## Amounts in lists of coins -/

/-- How much of a denomination a list of coins holds. -/
def Coin.total (coins : List Coin) (denom : String) : Int :=
  (coins.map fun c => if c.denom = denom then c.amount.raw else 0).sum

namespace Coin

@[simp] theorem total_nil (denom : String) : total [] denom = 0 := rfl

@[simp] theorem total_cons (c : Coin) (cs : List Coin) (denom : String) :
    total (c :: cs) denom = (if c.denom = denom then c.amount.raw else 0) + total cs denom := by
  simp [total]

/-- Coins of positive amounts have no negative total in any denomination. -/
theorem total_nonneg {cs : List Coin} (h : ∀ c ∈ cs, 0 < c.amount.raw) (denom : String) :
    0 ≤ total cs denom := by
  induction cs with
  | nil => simp
  | cons c cs ih =>
    rw [List.forall_mem_cons] at h
    have htail := ih h.2
    have hhead := h.1
    rw [total_cons]
    split <;> omega

/-- Coins of other denominations do not count. -/
theorem total_eq_zero {cs : List Coin} {denom : String} (h : ∀ c ∈ cs, c.denom ≠ denom) :
    total cs denom = 0 := by
  induction cs with
  | nil => rfl
  | cons c cs ih =>
    rw [List.forall_mem_cons] at h
    rw [total_cons, if_neg h.1, ih h.2, Int.add_zero]

end Coin

/-! ## Assets of a valid pool -/

/-- An asset that passes its check is valid, and is not changed by it. -/
theorem Asset.checked_eq_ok {a b : Asset} (h : a.checked = .ok b) : b = a ∧ a.Valid := by
  rw [Asset.checked, bind_eq_ok] at h
  obtain ⟨_, hcheck, h⟩ := h
  rw [pure_eq_ok] at h
  exact ⟨h.symm, Asset.check_eq_ok.mp hcheck⟩

/-- An asset is refused for a rule of pools only, which names no pool. -/
theorem Asset.refusesOnly_checked {P : Failure → Prop}
    (hrule : ∀ fault, (Failure.badPool fault).numbers = [] → P (.badPool fault)) {a : Asset} :
    RefusesOnly P a.checked := by
  refine refusesOnly_bind ?_ fun _ _ => refusesOnly_pure a
  refine refusesOnly_bind (refusesOnly_require fun _ => hrule _ rfl) fun _ _ => ?_
  refine refusesOnly_bind (refusesOnly_require fun _ => hrule _ rfl) fun _ _ => ?_
  refine refusesOnly_bind (refusesOnly_require fun _ => hrule _ rfl) fun _ _ => ?_
  exact refusesOnly_require fun _ => hrule _ rfl

/-- A pool is refused for a rule of pools, which names it, or for one of its fees. -/
theorem Pool.refusesOnly_checked {P : Failure → Prop} {p : Pool}
    (hrule : ∀ fault, (Failure.badPool fault).numbers = [p.id] → P (Failure.badPool fault).settled)
    (hswap : P (Failure.namedFeeRange "swap_fee" p.swapFee).settled)
    (hexit : P (Failure.namedFeeRange "exit_fee" p.exitFee).settled) : RefusesOnly P p.checked := by
  refine refusesOnly_bind ?_ fun _ _ => refusesOnly_pure p
  refine refusesOnly_bind (refusesOnly_require fun _ => hrule _ rfl) fun _ _ => ?_
  refine refusesOnly_bind (refusesOnly_require fun _ => hrule _ rfl) fun _ _ => ?_
  refine refusesOnly_bind (refusesOnly_require fun _ => hrule _ rfl) fun _ _ => ?_
  refine refusesOnly_bind (refusesOnly_require fun _ => hrule _ rfl) fun _ _ => ?_
  refine refusesOnly_bind (refusesOnly_require fun _ => hswap) fun _ _ => ?_
  exact refusesOnly_require fun _ => hexit

namespace Pool

variable {p q : Pool}

/-- An asset that was found is one of the pool, and of the denomination that was asked for. -/
theorem mem_of_asset {denom : String} {a : Asset} (h : p.asset denom = .ok a) :
    a ∈ p.assets ∧ a.denom = denom := by
  unfold asset at h
  split at h
  · next found =>
    cases h
    exact ⟨List.mem_of_find?_eq_some found, by simpa using List.find?_some found⟩
  · cases h

/-- An asset is found for denominations of the pool only. -/
theorem mem_denoms_of_asset {denom : String} {a : Asset} (h : p.asset denom = .ok a) :
    denom ∈ p.denoms := by
  obtain ⟨hmem, rfl⟩ := mem_of_asset h
  exact List.mem_map_of_mem hmem

/-- A valid pool has one asset of each denomination. -/
theorem Valid.eq_of_denom (hp : p.Valid) {a b : Asset} (ha : a ∈ p.assets) (hb : b ∈ p.assets)
    (h : a.denom = b.denom) : a = b :=
  List.inj_on_of_nodup_map hp.nodup ha hb h

/-- Each denomination of the pool has an asset to be found. -/
theorem exists_asset_of_mem_denoms {denom : String} (h : denom ∈ p.denoms) :
    ∃ a, p.asset denom = .ok a := by
  obtain ⟨a, ha, rfl⟩ := List.mem_map.mp h
  cases hfind : p.asset? a.denom with
  | none => exact absurd (List.find?_eq_none.mp hfind a ha) (by simp)
  | some b => exact ⟨b, by rw [asset, hfind]⟩

/-- An asset of a valid pool is found by its denomination. -/
theorem Valid.asset_eq_ok (hp : p.Valid) {a : Asset} (ha : a ∈ p.assets) : p.asset a.denom = .ok a := by
  obtain ⟨b, hb⟩ := exists_asset_of_mem_denoms (List.mem_map_of_mem ha)
  obtain ⟨hmem, hdenom⟩ := mem_of_asset hb
  rwa [hp.eq_of_denom hmem ha hdenom] at hb

/-! ## The shifted pool -/

/-- The pool with every balance moved by its denomination's change, and the supply by its own. -/
def shifted (p : Pool) (reserves : String → Int) (supply : Int) : Pool :=
  { p with
    assets := p.assets.map fun a => { a with balance := ⟨a.balance.raw + reserves a.denom⟩ }
    totalShares := ⟨p.totalShares.raw + supply⟩ }

section

variable (reserves : String → Int) (supply : Int)

@[simp] theorem id_shifted : (p.shifted reserves supply).id = p.id := rfl

@[simp] theorem address_shifted : (p.shifted reserves supply).address = p.address := rfl

@[simp] theorem shareDenom_shifted : (p.shifted reserves supply).shareDenom = p.shareDenom := rfl

/-- A shift moves amounts, so the denominations stay as they are. -/
@[simp] theorem denoms_shifted : (p.shifted reserves supply).denoms = p.denoms := by
  simp [shifted, denoms, Function.comp_def]

@[simp] theorem totalShares_shifted :
    (p.shifted reserves supply).totalShares.raw = p.totalShares.raw + supply := rfl

/-- The assets of a shifted pool are those of the pool with their balances moved. -/
theorem mem_assets_shifted {b : Asset} : b ∈ (p.shifted reserves supply).assets ↔
    ∃ a ∈ p.assets, b = { a with balance := ⟨a.balance.raw + reserves a.denom⟩ } := by
  simp [shifted, eq_comm]

end

/-! ## Replacing balances -/

/-- Of balances with different denominations each counts. -/
theorem newBalance?_of_mem {balances : List (String × Fixed)} (hnodup : (balances.map (·.1)).Nodup)
    {denom : String} {b : Fixed} (h : (denom, b) ∈ balances) :
    newBalance? balances denom = some b := by
  unfold newBalance?
  cases hfind : balances.reverse.find? (·.1 == denom) with
  | none =>
    have := List.find?_eq_none.mp hfind (denom, b) (List.mem_reverse.mpr h)
    simp at this
  | some e =>
    have hkey : e.1 = denom := by simpa using List.find?_some hfind
    have hmem : e ∈ balances := List.mem_reverse.mp (List.mem_of_find?_eq_some hfind)
    have heq : e = (denom, b) := List.inj_on_of_nodup_map hnodup hmem h hkey
    rw [heq]; rfl

/-- An asset without a new balance keeps the one that it has. -/
theorem newBalance?_eq_none {balances : List (String × Fixed)} {denom : String}
    (h : denom ∉ balances.map (·.1)) : newBalance? balances denom = none := by
  unfold newBalance?
  rw [Option.map_eq_none_iff, List.find?_eq_none]
  intro e he hkey
  exact h (List.mem_map.mpr ⟨e, List.mem_reverse.mp he, by simpa using hkey⟩)

@[simp] theorem denom_rebalanced (balances : List (String × Fixed)) (a : Asset) :
    (rebalanced balances a).denom = a.denom := by
  unfold rebalanced; split <;> rfl

/-- Replacing balances answers a valid pool whose assets have them, and changes nothing else. -/
theorem withBalances_eq_ok {balances : List (String × Fixed)} (hp : p.Valid)
    (h : p.withBalances balances = .ok q) :
    q.Valid ∧ q = { p with assets := p.assets.map (rebalanced balances) } := by
  rw [withBalances, bind_eq_ok] at h
  obtain ⟨_, _, h⟩ := h
  rw [bind_eq_ok] at h
  obtain ⟨assets, hassets, h⟩ := h
  rw [Pool.checked, bind_eq_ok] at h
  obtain ⟨_, hcheck, h⟩ := h
  rw [pure_eq_ok] at h
  -- checking changes no asset, and every one that was checked is valid
  obtain ⟨rfl, hall⟩ := mapM_eq_ok (fun a b hb => (Asset.checked_eq_ok hb).1) hassets
  have hvalid : ∀ b ∈ q.assets, b.Valid := by
    rw [← h]
    intro b hb
    obtain ⟨a, ha, rfl⟩ := List.mem_map.mp hb
    exact (Asset.checked_eq_ok (hall a ha)).2
  have hwindow : ∀ w ∈ q.window, w.Valid := by rw [← h]; exact hp.window
  rw [h] at hcheck
  exact ⟨(check_eq_ok hvalid hwindow).mp hcheck, h.symm⟩

/-- Replacing the supply answers a valid pool with it, and changes nothing else. -/
theorem withTotalShares_eq_ok {shares : Fixed} (hp : p.Valid) (h : p.withTotalShares shares = .ok q) :
    q.Valid ∧ q = { p with totalShares := shares } := by
  rw [withTotalShares, Pool.checked, bind_eq_ok] at h
  obtain ⟨_, hcheck, h⟩ := h
  rw [pure_eq_ok] at h
  have hassets : ∀ a ∈ q.assets, a.Valid := by rw [← h]; exact hp.assets
  have hwindow : ∀ w ∈ q.window, w.Valid := by rw [← h]; exact hp.window
  rw [h] at hcheck
  exact ⟨(check_eq_ok hassets hwindow).mp hcheck, h.symm⟩

/-- Balances replaced asset by asset, each by its own balance moved by a change. -/
theorem map_rebalanced (balances : List (String × Fixed)) (change : String → Int)
    (h : ∀ a ∈ p.assets, newBalance? balances a.denom = some ⟨a.balance.raw + change a.denom⟩ ∨
      newBalance? balances a.denom = none ∧ change a.denom = 0) :
    p.assets.map (rebalanced balances) =
      p.assets.map fun a => { a with balance := ⟨a.balance.raw + change a.denom⟩ } := by
  apply List.map_congr_left
  intro a ha
  rcases h a ha with hnew | ⟨hnew, hzero⟩
  · simp [rebalanced, hnew]
  · simp [rebalanced, hnew, hzero]

/-! ## Trades -/

/-- The two sides of a trade are different assets of the pool. -/
theorem sides_eq_ok {denomIn denomOut : String} {s t : Asset}
    (h : p.sides denomIn denomOut = .ok (s, t)) :
    denomIn ≠ denomOut ∧ p.asset denomIn = .ok s ∧ p.asset denomOut = .ok t := by
  rw [sides, bind_eq_ok] at h
  obtain ⟨_, hne, h⟩ := h
  rw [bind_eq_ok] at h
  obtain ⟨s', hs, h⟩ := h
  rw [bind_eq_ok] at h
  obtain ⟨t', ht, h⟩ := h
  rw [pure_eq_ok, Prod.mk.injEq] at h
  obtain ⟨rfl, rfl⟩ := h
  exact ⟨by simpa using require_eq_ok.mp hne, hs, ht⟩

/-- **A trade** stages the pool with one coin added and the other taken away, and leaves no
balance below zero. -/
theorem trade_eq_ok {taken given : Coin} (hp : p.Valid) (h : p.trade taken given = .ok q) :
    q.Valid ∧ q = p.shifted (fun d => Coin.total [taken] d - Coin.total [given] d) 0 := by
  rw [trade, bind_eq_ok] at h
  obtain ⟨⟨s, t⟩, hsides, h⟩ := h
  obtain ⟨hne, hs, ht⟩ := sides_eq_ok hsides
  rw [bind_eq_ok] at h
  obtain ⟨_, _, h⟩ := h
  obtain ⟨hvalid, hq⟩ := withBalances_eq_ok hp h
  refine ⟨hvalid, hq.trans ?_⟩
  obtain ⟨hsmem, hsd⟩ := mem_of_asset hs
  obtain ⟨htmem, htd⟩ := mem_of_asset ht
  have hnodup : ([(s.denom, s.balance + taken.amount), (t.denom, t.balance - given.amount)].map
      (·.1)).Nodup := by simp [hsd, htd, hne]
  have hassets := map_rebalanced (p := p)
    [(s.denom, s.balance + taken.amount), (t.denom, t.balance - given.amount)]
    (fun d => Coin.total [taken] d - Coin.total [given] d) ?_
  · simp [shifted, hassets]
  · -- an asset of the pool is the one that is paid in, the one that is paid out, or neither
    intro a ha
    by_cases hin : a.denom = s.denom
    · obtain rfl := hp.eq_of_denom ha hsmem hin
      left
      rw [newBalance?_of_mem (b := a.balance + taken.amount) hnodup (by simp)]
      simp [← hsd, hsd ▸ Ne.symm hne, Fixed.ext_iff]
    by_cases hout : a.denom = t.denom
    · obtain rfl := hp.eq_of_denom ha htmem hout
      left
      rw [newBalance?_of_mem (b := a.balance - given.amount) hnodup (by simp)]
      simp [← htd, htd ▸ hne, Fixed.ext_iff, Int.sub_eq_add_neg]
    · right
      have hnone : a.denom ∉ [(s.denom, s.balance + taken.amount),
          (t.denom, t.balance - given.amount)].map (·.1) := by simp [hin, hout]
      refine ⟨newBalance?_eq_none hnone, ?_⟩
      simp [← hsd, ← htd, Ne.symm hin, Ne.symm hout]

/-! ## Deposits -/

/-- What a deposit of `coin` has found out: its asset, the shares that the curve gives for it, and
the join that it answers. -/
structure Deposits (p : Pool) (coin : Coin) (fee : Fixed) (a : Asset) (issued : Fixed) (j : Join) :
    Prop where
  isFee : fee.IsFee
  asset : p.asset coin.denom = .ok a
  amount_pos : 0 < coin.amount.raw
  issued_eq : sharesForDeposit a.balance (a.weight.quo p.totalWeight) p.totalShares coin.amount fee =
    .ok issued
  shares_eq : j.shares = issued.truncateTo p.shareDecimals.toNat
  shares_pos : 0 < j.shares.raw
  valid : j.pool.Valid
  pool : j.pool = p.shifted (Coin.total [coin]) j.shares.raw

/-- A single deposit adds its coin to the reserves and its shares to the supply. -/
theorem joinWith_eq_ok {coin : Coin} {fee : Fixed} {j : Join} (hp : p.Valid)
    (h : p.joinWith coin fee = .ok j) : ∃ a issued, p.Deposits coin fee a issued j := by
  rw [joinWith, bind_eq_ok] at h
  obtain ⟨_, hfee, h⟩ := h
  rw [bind_eq_ok] at h
  obtain ⟨a, ha, h⟩ := h
  rw [bind_eq_ok] at h
  obtain ⟨_, hamount, h⟩ := h
  rw [bind_eq_ok] at h
  obtain ⟨part, hpart, h⟩ := h
  rw [bind_eq_ok] at h
  obtain ⟨issued, hissued, h⟩ := h
  rw [bind_eq_ok] at h
  obtain ⟨shares, hshares, h⟩ := h
  rw [bind_eq_ok] at h
  obtain ⟨_, hpos, h⟩ := h
  rw [bind_eq_ok] at h
  obtain ⟨q, hq, h⟩ := h
  rw [bind_eq_ok] at h
  obtain ⟨q', hq', h⟩ := h
  rw [pure_eq_ok] at h
  subst h
  -- the balances are staged first, and the shares in a second step
  obtain ⟨hvalid, rfl⟩ := withBalances_eq_ok hp hq
  obtain ⟨hvalid', rfl⟩ := withTotalShares_eq_ok hvalid hq'
  obtain ⟨hmem, hdenom⟩ := mem_of_asset ha
  have hassets := map_rebalanced (p := p) [(a.denom, a.balance + coin.amount)]
    (Coin.total [coin]) ?_
  · exact ⟨a, issued,
      { isFee := by simpa using require_eq_ok.mp hfee
        asset := ha
        amount_pos := by simpa using require_eq_ok.mp hamount
        issued_eq := by rw [Fixed.divide_eq_quo hpart]; exact hissued
        shares_eq := Fixed.truncate_eq_truncateTo hshares
        shares_pos := by simpa using require_eq_ok.mp hpos
        valid := hvalid'
        pool := by simp [shifted, hassets]; rfl }⟩
  · intro b hb
    by_cases hin : b.denom = a.denom
    · obtain rfl := hp.eq_of_denom hb hmem hin
      left
      rw [newBalance?_of_mem (b := b.balance + coin.amount) (by simp) (by simp)]
      simp [← hdenom, Fixed.ext_iff]
    · right
      exact ⟨newBalance?_eq_none (by simp [hin]), by simp [← hdenom, Ne.symm hin]⟩

/-- Only a single coin joins. -/
theorem join_eq_ok {coins : List Coin} {fee : Fixed} {j : Join} (h : p.join coins fee = .ok j) :
    ∃ coin, coins = [coin] ∧ p.joinWith coin fee = .ok j := by
  unfold join at h
  rw [bind_eq_ok] at h
  obtain ⟨_, _, h⟩ := h
  rcases coins with _ | ⟨coin, _ | ⟨coin', rest⟩⟩
  · simp [bind_eq_ok] at h
  · exact ⟨coin, rfl, h⟩
  · simp [bind_eq_ok] at h

/-! ## Redemptions -/

/-- What an asset owes for a part of the shares, in whole units. -/
def due (ratio : Fixed) (a : Asset) : Fixed := (ratio.mul a.balance).truncateTo a.decimals.toNat

/-- Whether an asset owes anything for a part of the shares. -/
def owes (ratio : Fixed) (a : Asset) : Bool := decide (0 < (due ratio a).raw)

/-- The coins that assets pay for a part of the shares. -/
def payouts (ratio : Fixed) (assets : List Asset) : List Coin :=
  (assets.filter (owes ratio)).map fun a => ⟨a.denom, due ratio a⟩

/-- An asset that was asked for a payment pays what is due, if it owes anything. -/
theorem payment?_eq_ok {ratio : Fixed} {a : Asset} {c : Option Coin}
    (h : payment? ratio a = .ok c) : c = if owes ratio a then some ⟨a.denom, due ratio a⟩ else none := by
  rw [payment?, bind_eq_ok] at h
  obtain ⟨amount, hamount, h⟩ := h
  rw [pure_eq_ok] at h
  rw [← h, Fixed.truncate_eq_truncateTo hamount]
  by_cases hpos : 0 < (due ratio a).raw
  · rw [owes, decide_eq_true hpos]
    exact if_pos hpos
  · rw [owes, decide_eq_false hpos]
    exact if_neg hpos

/-- What is collected from a list where a test holds is what the elements that pass it give. -/
theorem filterMap_ite {α β : Type} (test : α → Bool) (f : α → β) (l : List α) :
    (l.filterMap fun a => if test a then some (f a) else none) = (l.filter test).map f := by
  induction l with
  | nil => rfl
  | cons a l ih =>
    cases h : test a <;> simp [h, ih]

/-- The assets that pay, each with its coin. -/
theorem filterMap_owes (ratio : Fixed) {assets : List Asset} {pay : Asset → Option (Asset × Coin)}
    (hpay : ∀ a, pay a =
      (if owes ratio a then some (⟨a.denom, due ratio a⟩ : Coin) else none).map (Prod.mk a)) :
    assets.filterMap pay =
      (assets.filter (owes ratio)).map fun a => (a, ⟨a.denom, due ratio a⟩) := by
  rw [← filterMap_ite]
  apply List.filterMap_congr
  intro a _
  rw [hpay]
  cases owes ratio a <;> rfl

/-- The payouts of assets hold of each denomination what its asset owes. -/
theorem total_payouts {assets : List Asset} (hnodup : (assets.map (·.denom)).Nodup) (ratio : Fixed)
    {a : Asset} (ha : a ∈ assets) :
    Coin.total (payouts ratio assets) a.denom = if owes ratio a then (due ratio a).raw else 0 := by
  induction assets with
  | nil => cases ha
  | cons b rest ih =>
    rw [List.map_cons, List.nodup_cons] at hnodup
    obtain ⟨hb, hrest⟩ := hnodup
    rcases List.mem_cons.mp ha with rfl | hmem
    · -- the first asset pays, and no later one has its denomination
      have hlater : Coin.total (payouts ratio rest) a.denom = 0 := by
        apply Coin.total_eq_zero
        intro c hc hdenom
        obtain ⟨d, hd, rfl⟩ := List.mem_map.mp hc
        exact hb (hdenom ▸ List.mem_map_of_mem (List.mem_of_mem_filter hd))
      unfold payouts at hlater ⊢
      cases howes : owes ratio a <;> simp [howes, hlater]
    · have hne : b.denom ≠ a.denom := fun h => hb (h ▸ List.mem_map_of_mem hmem)
      rw [← ih hrest hmem]
      unfold payouts
      cases howes : owes ratio b <;> simp [howes, hne]

/-- What a redemption of `shares` has found out: the shares that are paid out after the exit fee,
the part of the reserves that they are, and the exit that it answers. -/
structure Redeems (p : Pool) (shares fee refund ratio : Fixed) (e : Exit) : Prop where
  isFee : fee.IsFee
  shares_lt : shares.raw < p.totalShares.raw
  shares_pos : 0 < shares.raw
  refund_eq : p.refunded shares fee = .ok refund
  ratio_eq : ratio = refund.quo p.totalShares
  coins_eq : e.coins = payouts ratio p.assets
  coins_ne : e.coins ≠ []
  valid : e.pool.Valid
  pool : e.pool = p.shifted (fun d => -Coin.total e.coins d) (-shares.raw)

/-- The balances that assets are left with when they have paid what they owe. -/
theorem map_rebalanced_payouts (hp : p.Valid) (ratio : Fixed) :
    p.assets.map (rebalanced ((p.assets.filter (owes ratio)).map
        fun a => (a.denom, a.balance - due ratio a))) =
      p.assets.map fun a => { a with
        balance := ⟨a.balance.raw + -Coin.total (payouts ratio p.assets) a.denom⟩ } := by
  have hkeys : (((p.assets.filter (owes ratio)).map fun a => (a.denom, a.balance - due ratio a)).map
      (·.1)).Nodup := by
    rw [List.map_map]
    exact hp.nodup.sublist (List.filter_sublist.map _)
  refine map_rebalanced _ (fun d => -Coin.total (payouts ratio p.assets) d) ?_
  intro a ha
  rw [total_payouts hp.nodup ratio ha]
  -- an asset that owes has one new balance, and one that does not has none
  by_cases howes : owes ratio a
  · left
    rw [newBalance?_of_mem (b := a.balance - due ratio a) hkeys]
    · simp [howes, Fixed.ext_iff, Int.sub_eq_add_neg]
    · exact List.mem_map.mpr ⟨a, List.mem_filter.mpr ⟨ha, howes⟩, rfl⟩
  · right
    refine ⟨newBalance?_eq_none ?_, by simp [howes]⟩
    intro hmem
    obtain ⟨e, he, hdenom⟩ := List.mem_map.mp hmem
    obtain ⟨b, hb, rfl⟩ := List.mem_map.mp he
    obtain ⟨hb, hbowes⟩ := List.mem_filter.mp hb
    exact howes (hp.eq_of_denom hb ha hdenom ▸ hbowes)

/-- A redemption takes what every asset pays from the reserves, and its shares from the supply. -/
theorem exit_eq_ok {shares fee : Fixed} {e : Exit} (hp : p.Valid) (h : p.exit shares fee = .ok e) :
    ∃ refund ratio, p.Redeems shares fee refund ratio e := by
  rw [exit, bind_eq_ok] at h
  obtain ⟨_, hfee, h⟩ := h
  rw [bind_eq_ok] at h
  obtain ⟨_, hlt, h⟩ := h
  rw [bind_eq_ok] at h
  obtain ⟨_, hpos, h⟩ := h
  rw [bind_eq_ok] at h
  obtain ⟨refund, hrefund, h⟩ := h
  rw [bind_eq_ok] at h
  obtain ⟨ratio, hratio, h⟩ := h
  rw [bind_eq_ok] at h
  obtain ⟨payments, hpayments, h⟩ := h
  -- what each asset pays is settled by the ratio, so the list of payments is a map
  have hstep : ∀ (a : Asset) (b : Asset × Option Coin),
      (do return (a, ← payment? ratio a) : Except Failure _) = .ok b →
        b = (a, if owes ratio a then some ⟨a.denom, due ratio a⟩ else none) := by
    intro a b hb
    rw [bind_eq_ok] at hb
    obtain ⟨c, hc, hb⟩ := hb
    rw [pure_eq_ok, payment?_eq_ok hc] at hb
    exact hb.symm
  obtain ⟨rfl, _⟩ := mapM_eq_ok hstep hpayments
  rw [List.filterMap_map, filterMap_owes ratio ?pays] at h
  case pays => exact fun _ => rfl
  dsimp only at h
  rw [bind_eq_ok] at h
  obtain ⟨_, hne, h⟩ := h
  rw [bind_eq_ok] at h
  obtain ⟨q, hq, h⟩ := h
  rw [bind_eq_ok] at h
  obtain ⟨q', hq', h⟩ := h
  rw [pure_eq_ok, List.map_map] at h
  rw [List.map_map] at hne hq
  subst h
  obtain ⟨hvalid, rfl⟩ := withBalances_eq_ok hp hq
  obtain ⟨hvalid', rfl⟩ := withTotalShares_eq_ok hvalid hq'
  have hassets := map_rebalanced_payouts hp ratio
  exact ⟨refund, ratio,
    { isFee := by simpa using require_eq_ok.mp hfee
      shares_lt := Fixed.lt_def.mp (by simpa using require_eq_ok.mp hlt)
      shares_pos := by simpa using require_eq_ok.mp hpos
      refund_eq := hrefund
      ratio_eq := (Fixed.divide_eq_quo hratio).symm
      coins_eq := rfl
      coins_ne := by simpa using require_eq_ok.mp hne
      valid := hvalid'
      pool := by
        simp only [shifted, Pool.mk.injEq, Fixed.ext_iff, Fixed.raw_sub, Int.sub_eq_add_neg,
          true_and, and_true]
        exact hassets }⟩

end Pool

end WeightedMarket
