/-
  Whole units.

  An amount of an asset is a whole number of units if it has no digits beyond the asset's decimals, and
  so are shares with the decimals of shares.  Every amount that a pool computes is truncated to its own
  precision, and what a buyer is charged on top of that is raised by whole units.  So each of the four
  operations answers whole units, whatever it is asked and whatever the pool holds
  (`Market.answersWhole_of_plan`).

  A staged pool is the loaded one moved by the coins of its plan (`Pool.shifted`), and those are answers or
  what was asked for.  So if the pool holds whole units and is asked for whole units, what is staged is
  whole units again (`Market.kept_of_plan`).
-/
import WeightedMarket.Proofs.Execution

namespace WeightedMarket

open Decision

/-! ## Units -/

/-- The raw value of one unit of an asset: of its last decimal place. -/
def Asset.unit (a : Asset) : Int := Fixed.unitOf a.decimals.toNat

namespace Pool

/-- The raw value of one unit of the pool's shares. -/
def shareUnit (p : Pool) : Int := Fixed.unitOf p.shareDecimals.toNat

/-- A coin of one of the pool's assets, in whole units of it. -/
def InUnits (p : Pool) (c : Coin) : Prop := ∃ a ∈ p.assets, a.denom = c.denom ∧ a.unit ∣ c.amount.raw

instance (p : Pool) (c : Coin) : Decidable (p.InUnits c) :=
  inferInstanceAs (Decidable (∃ a ∈ p.assets, a.denom = c.denom ∧ a.unit ∣ c.amount.raw))

/-- A coin of the pool's shares, in whole units of them. -/
def InShareUnits (p : Pool) (c : Coin) : Prop := c.denom = p.shareDenom ∧ p.shareUnit ∣ c.amount.raw

/-- Every balance and the supply of shares are whole units. -/
structure Whole (p : Pool) : Prop where
  balances : ∀ a ∈ p.assets, a.unit ∣ a.balance.raw
  supply : p.shareUnit ∣ p.totalShares.raw

/-- Two pools of one number that count the same assets, and their shares, in the same units. -/
structure SameUnits (p q : Pool) : Prop where
  id : q.id = p.id
  assets : q.assets.map (fun a => (a.denom, a.decimals)) = p.assets.map fun a => (a.denom, a.decimals)
  shareDecimals : q.shareDecimals = p.shareDecimals

variable {p q : Pool}

namespace SameUnits

theorem refl (p : Pool) : p.SameUnits p := ⟨rfl, rfl, rfl⟩

/-- Units are compared along a series of pools. -/
theorem trans {r : Pool} (h : p.SameUnits q) (h' : q.SameUnits r) : p.SameUnits r :=
  ⟨h'.id.trans h.id, h'.assets.trans h.assets, h'.shareDecimals.trans h.shareDecimals⟩

/-- Pools in the same units have the same denominations. -/
theorem denoms (h : p.SameUnits q) : q.denoms = p.denoms := by
  have hmap := congrArg (List.map Prod.fst) h.assets
  rwa [List.map_map, List.map_map] at hmap

theorem shareUnit (h : p.SameUnits q) : q.shareUnit = p.shareUnit := by
  rw [Pool.shareUnit, Pool.shareUnit, h.shareDecimals]

/-- Pools in the same units are the same pool, so their account is the same. -/
theorem address (h : p.SameUnits q) : q.address = p.address := by
  rw [Pool.address, Pool.address, h.id]

/-- What one pool counts in whole units, the other does too. -/
theorem inUnits_iff (h : p.SameUnits q) {c : Coin} : q.InUnits c ↔ p.InUnits c := by
  have hpairs (r : Pool) : r.InUnits c ↔
      ∃ e ∈ r.assets.map (fun a => (a.denom, a.decimals)),
        e.1 = c.denom ∧ Fixed.unitOf e.2.toNat ∣ c.amount.raw := by
    simp [InUnits, Asset.unit, List.mem_map]
  rw [hpairs, hpairs, h.assets]

/-- A coin of shares is whole for both pools or for neither. -/
theorem inShareUnits_iff (h : p.SameUnits q) {c : Coin} : q.InShareUnits c ↔ p.InShareUnits c := by
  have hdenom : q.shareDenom = p.shareDenom := by rw [shareDenom, shareDenom, h.id]
  rw [InShareUnits, InShareUnits, hdenom, h.shareUnit]

end SameUnits

/-- A pool that counts as another one does, is valid, and holds whole units if the other one does. -/
structure Kept (p q : Pool) : Prop where
  sameUnits : p.SameUnits q
  valid : q.Valid
  whole : p.Whole → q.Whole

namespace Kept

/-- A valid pool is kept from itself. -/
theorem refl (hp : p.Valid) : p.Kept p := ⟨.refl p, hp, fun h => h⟩

/-- What is kept twice is kept. -/
theorem trans {r : Pool} (h : p.Kept q) (h' : q.Kept r) : p.Kept r :=
  ⟨h.sameUnits.trans h'.sameUnits, h'.valid, h'.whole ∘ h.whole⟩

end Kept

/-- A multiple of an asset's unit is a whole amount of its denomination. -/
theorem inUnits_of_asset {denom : String} {a : Asset} {amount : Fixed} (h : p.asset denom = .ok a)
    (hunit : a.unit ∣ amount.raw) : p.InUnits ⟨denom, amount⟩ := by
  obtain ⟨hmem, hdenom⟩ := mem_of_asset h
  exact ⟨a, hmem, hdenom, hunit⟩

/-! ## Shifted pools -/

/-- Shifting a pool moves amounts only. -/
theorem SameUnits.of_shifted {change : String → Int} {supply : Int} (h : q = p.shifted change supply) :
    p.SameUnits q := by
  subst h
  refine ⟨rfl, ?_, rfl⟩
  simp [shifted]

/-- A pool of whole units that is moved by whole units. -/
theorem Whole.shifted (h : p.Whole) {change : String → Int} {supply : Int}
    (hchange : ∀ a ∈ p.assets, a.unit ∣ change a.denom) (hsupply : p.shareUnit ∣ supply) :
    (p.shifted change supply).Whole := by
  constructor
  · intro b hb
    obtain ⟨a, ha, rfl⟩ := (mem_assets_shifted change supply).mp hb
    exact Int.dvd_add (h.balances a ha) (hchange a ha)
  · exact Int.dvd_add h.supply hsupply

/-- Coins in whole units hold whole units of each asset. -/
theorem Valid.unit_dvd_total (hp : p.Valid) {cs : List Coin} (hcs : ∀ c ∈ cs, p.InUnits c) {a : Asset}
    (ha : a ∈ p.assets) : a.unit ∣ Coin.total cs a.denom := by
  induction cs with
  | nil => exact Int.dvd_zero _
  | cons c cs ih =>
    rw [List.forall_mem_cons] at hcs
    rw [Coin.total_cons]
    refine Int.dvd_add ?_ (ih hcs.2)
    split
    · next hdenom =>
      -- the asset that the coin is counted in is this one
      obtain ⟨b, hb, hbdenom, hunit⟩ := hcs.1
      obtain rfl := hp.eq_of_denom hb ha (hbdenom.trans hdenom)
      exact hunit
    · exact Int.dvd_zero _

end Pool

/-! ## Amounts that are computed -/

/-- What a sale pays is truncated to the unit of the asset that is paid. -/
theorem Asset.Sale.unit_dvd {source target : Asset} {amount fee power out : Fixed}
    (h : source.Sale target amount fee power out) : target.unit ∣ out.raw := by
  rw [h.out_eq]
  exact Fixed.unitOf_dvd_truncateTo _ _

/-- What a purchase costs is truncated to the unit of the asset that is charged. -/
theorem Asset.Purchase.unit_dvd {target source : Asset} {amount fee power paid : Fixed}
    (h : target.Purchase source amount fee power paid) : source.unit ∣ paid.raw := by
  rw [h.paid_eq]
  exact Fixed.unitOf_dvd_truncateTo _ _

/-- The shares of a deposit are truncated to the unit of shares. -/
theorem Pool.Deposits.shareUnit_dvd {p : Pool} {coin : Coin} {fee issued : Fixed} {a : Asset}
    {j : Pool.Join} (h : p.Deposits coin fee a issued j) : p.shareUnit ∣ j.shares.raw := by
  rw [h.shares_eq]
  exact Fixed.unitOf_dvd_truncateTo _ _

/-- Each coin of a redemption is truncated to the unit of its asset. -/
theorem Pool.Redeems.inUnits {p : Pool} {shares fee refund ratio : Fixed} {e : Pool.Exit}
    (h : p.Redeems shares fee refund ratio e) : ∀ c ∈ e.coins, p.InUnits c := by
  intro c hc
  rw [h.coins_eq] at hc
  obtain ⟨a, ha, rfl⟩ := List.mem_map.mp hc
  exact ⟨a, List.mem_of_mem_filter ha, rfl, Fixed.unitOf_dvd_truncateTo _ _⟩

/-- **What a buyer is charged** is a whole number of units, raised or not. -/
theorem Market.Purchased.unit_dvd {m : Market} {r : Request} {denomIn : String} {maximum : Fixed}
    {coin : Coin} {p : Pool} {source target : Asset} {computed charged out : Fixed} {plan : Plan}
    (h : m.Purchased r denomIn maximum coin p source target computed charged out plan) :
    source.unit ∣ charged.raw := by
  obtain ⟨_, hquote⟩ := Asset.amountIn_eq_ok h.computed_eq
  obtain ⟨s, s', hcharged⟩ := h.charged_eq
  obtain ⟨_, _, hfound⟩ := Market.converge_of_convergedInput hcharged
  obtain ⟨-, hraised, -⟩ := converge_eq_some hfound
  exact (Int.dvd_iff_dvd_of_dvd_sub hraised).mpr hquote.unit_dvd

/-! ## Staged pools -/

namespace Pool

variable {p q : Pool}

/-- A pool that is moved by whole units is kept. -/
theorem Kept.of_shifted {change : String → Int} {supply : Int} (hq : q.Valid)
    (h : q = p.shifted change supply) (hchange : ∀ a ∈ p.assets, a.unit ∣ change a.denom)
    (hsupply : p.shareUnit ∣ supply) : p.Kept q :=
  ⟨.of_shifted h, hq, fun hwhole => h ▸ hwhole.shifted hchange hsupply⟩

/-- **A trade** in whole units keeps the pool: it moves two reserves by whole amounts. -/
theorem Kept.trade (hp : p.Valid) {taken given : Coin} (htrade : p.trade taken given = .ok q)
    (htaken : p.InUnits taken) (hgiven : p.InUnits given) : p.Kept q := by
  obtain ⟨hvalid, hstaged⟩ := trade_eq_ok hp htrade
  refine .of_shifted hvalid hstaged (fun a ha => ?_) (Int.dvd_zero _)
  exact Int.dvd_sub (hp.unit_dvd_total (List.forall_mem_singleton.mpr htaken) ha)
    (hp.unit_dvd_total (List.forall_mem_singleton.mpr hgiven) ha)

/-- **A deposit** of a whole amount keeps the pool. -/
theorem Kept.deposits (hp : p.Valid) {coin : Coin} {fee issued : Fixed} {a : Asset} {j : Join}
    (hdeposit : p.Deposits coin fee a issued j) (hcoin : p.InUnits coin) : p.Kept j.pool :=
  .of_shifted hdeposit.valid hdeposit.pool
    (fun _ hb => hp.unit_dvd_total (List.forall_mem_singleton.mpr hcoin) hb) hdeposit.shareUnit_dvd

/-- **A redemption** of whole shares keeps the pool. -/
theorem Kept.redeems (hp : p.Valid) {shares fee refund ratio : Fixed} {e : Exit}
    (hredeem : p.Redeems shares fee refund ratio e) (hshares : p.shareUnit ∣ shares.raw) :
    p.Kept e.pool :=
  .of_shifted hredeem.valid hredeem.pool
    (fun _ hb => Int.dvd_neg.mpr (hp.unit_dvd_total hredeem.inUnits hb)) (Int.dvd_neg.mpr hshares)

end Pool

/-! ## Operations -/

/-- An operation asks for whole units of a pool: every coin that it names is of no asset of the pool or in
whole units of it, and so are the shares.  Its limits may be anything. -/
def Operation.AsksWhole (o : Operation) (p : Pool) : Prop :=
  match o with
  | .swapIn coin _ _ => coin.denom ∈ p.denoms → p.InUnits coin
  | .swapOut _ _ coin => coin.denom ∈ p.denoms → p.InUnits coin
  | .join coins _ => ∀ coin ∈ coins, coin.denom ∈ p.denoms → p.InUnits coin
  | .exit shares => p.shareUnit ∣ shares.raw

/-- What an operation answers is in whole units of a pool: the amount that is bought or charged, the shares
that are issued, every coin that is paid. -/
def Operation.AnswersWhole (o : Operation) (p : Pool) (receipt : Receipt) : Prop :=
  match o, receipt with
  | .swapIn _ denomOut _, .amount out => p.InUnits ⟨denomOut, out⟩
  | .swapOut denomIn _ _, .amount charged => p.InUnits ⟨denomIn, charged⟩
  | .join .., .amount shares => p.shareUnit ∣ shares.raw
  | .exit _, .coins cs => ∀ c ∈ cs, p.InUnits c
  | _, _ => False

section

variable {o : Operation} {p q : Pool}

/-- Asked of a pool that counts in the same units, an operation asks for whole units as well. -/
theorem Operation.AsksWhole.of_sameUnits (h : o.AsksWhole p) (hsame : p.SameUnits q) : o.AsksWhole q := by
  cases o with
  | swapIn coin denomOut minimum => exact fun hcoin => hsame.inUnits_iff.mpr (h (hsame.denoms ▸ hcoin))
  | swapOut denomIn maximum coin => exact fun hcoin => hsame.inUnits_iff.mpr (h (hsame.denoms ▸ hcoin))
  | join coins minimum =>
    exact fun coin hmem hcoin => hsame.inUnits_iff.mpr (h coin hmem (hsame.denoms ▸ hcoin))
  | exit shares =>
    rw [AsksWhole, hsame.shareUnit]
    exact h

theorem Pool.SameUnits.answersWhole_iff (h : p.SameUnits q) {receipt : Receipt} :
    o.AnswersWhole q receipt ↔ o.AnswersWhole p receipt := by
  cases o <;> cases receipt <;> simp [Operation.AnswersWhole, h.inUnits_iff, h.shareUnit]

end

namespace Market

variable {m : Market} {r : Request} {plan : Plan} {p : Pool} {s s' : Progress}

/-- **Every operation answers whole units**, whatever it asks for. -/
theorem answersWhole_of_plan (hload : m.repository.load r.pool = .ok p) (hp : p.Valid)
    (h : m.plan r s = (.ok plan, s')) : r.operation.AnswersWhole p plan.receipt := by
  obtain ⟨sender, pool, operation⟩ := r
  cases operation with
  | swapIn coin denomOut minimum =>
    cases planned_swapIn h with
    | swapIn sides sale enough trade =>
      obtain rfl := Except.ok.inj (sides.load.symm.trans hload)
      obtain ⟨power, hsale⟩ := Asset.amountOut_eq_ok sale
      exact Pool.inUnits_of_asset sides.target hsale.unit_dvd
  | swapOut denomIn maximum coin =>
    obtain ⟨_, _, _, _, charged, _, hpurchase⟩ := planSwapOut_eq_ok h
    obtain rfl := Except.ok.inj (hpurchase.sides.load.symm.trans hload)
    rw [hpurchase.receipt_eq]
    exact Pool.inUnits_of_asset hpurchase.sides.source hpurchase.unit_dvd
  | join coins minimum =>
    cases planned_join h with
    | join load active joins enough =>
      obtain rfl := Except.ok.inj (load.symm.trans hload)
      obtain ⟨a, issued, hdeposit⟩ := Pool.joinWith_eq_ok hp joins
      exact hdeposit.shareUnit_dvd
  | exit shares =>
    cases planned_exit h with
    | exit load exits =>
      obtain rfl := Except.ok.inj (load.symm.trans hload)
      obtain ⟨refund, ratio, hredeem⟩ := Pool.exit_eq_ok hp exits
      exact hredeem.inUnits

/-- **Every plan** that was asked for in whole units stages a pool that is kept, and all its coins are
whole units. -/
theorem kept_of_plan (hload : m.repository.load r.pool = .ok p) (hp : p.Valid)
    (hasks : r.operation.AsksWhole p) (h : m.plan r s = (.ok plan, s')) :
    p.Kept plan.pool ∧
      ∀ c ∈ plan.event.paid ++ plan.event.received, p.InUnits c ∨ p.InShareUnits c := by
  have hanswer := answersWhole_of_plan hload hp h
  cases planned_of_plan h with
  | swapIn sides sale enough trade =>
    obtain rfl := Except.ok.inj (sides.load.symm.trans hload)
    have hcoin := hasks (Pool.mem_denoms_of_asset sides.source)
    exact ⟨.trade hp trade hcoin hanswer,
      List.forall_mem_cons.mpr ⟨.inl hcoin, List.forall_mem_singleton.mpr (.inl hanswer)⟩⟩
  | swapOut sides available charged_pos sale enough within trade =>
    obtain rfl := Except.ok.inj (sides.load.symm.trans hload)
    have hcoin := hasks (Pool.mem_denoms_of_asset sides.target)
    exact ⟨.trade hp trade hanswer hcoin,
      List.forall_mem_cons.mpr ⟨.inl hanswer, List.forall_mem_singleton.mpr (.inl hcoin)⟩⟩
  | join load active joins enough =>
    obtain rfl := Except.ok.inj (load.symm.trans hload)
    obtain ⟨a, issued, hdeposit⟩ := Pool.joinWith_eq_ok hp joins
    have hcoin := hasks _ List.mem_cons_self (Pool.mem_denoms_of_asset hdeposit.asset)
    exact ⟨.deposits hp hdeposit hcoin,
      List.forall_mem_cons.mpr ⟨.inl hcoin, List.forall_mem_singleton.mpr (.inr ⟨rfl, hanswer⟩)⟩⟩
  | exit load exits =>
    obtain rfl := Except.ok.inj (load.symm.trans hload)
    obtain ⟨refund, ratio, hredeem⟩ := Pool.exit_eq_ok hp exits
    exact ⟨.redeems hp hredeem hasks,
      List.forall_mem_cons.mpr ⟨.inr ⟨rfl, hasks⟩, fun c hc => .inl (hanswer c hc)⟩⟩

end Market

end WeightedMarket
