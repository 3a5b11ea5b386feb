/-
  Which operations empty a reserve.

  Buying is refused unless less than the reserve is asked for.  Selling has no such rule: it relies
  on the power of the invariant staying above zero, and a power that is below one unit is truncated
  to zero.  `Asset.Drains` says when that empties the reserve, and it is the only way
  (`Asset.Sale.le_balance`): everything else that is paid out is less than what is there.

  A reserve that was emptied stays empty, since nothing can be sold to it, bought from it or
  deposited in it.  So after every run of committed operations the reserves that are empty are
  exactly those that a sale of the run has drained (`reserves_positive_iff`).
-/
import WeightedMarket.Proofs.Commit
import WeightedMarket.Proofs.Power.Sign

namespace WeightedMarket

open Decision

/-! ## Sales -/

namespace Asset

/-- Selling an amount empties the target's reserve: the power is truncated to zero, and the reserve
is a whole number of the target's units. -/
def Drains (source target : Asset) (amount fee : Fixed) : Prop :=
  (source.balance.quo (source.replenished amount fee)).raise (source.weight.quo target.weight) =
      .ok Fixed.zero ∧
    Fixed.unitOf target.decimals.toNat ∣ target.balance.raw

namespace Sale

variable {source target : Asset} {amount fee power out : Fixed}

/-- Nothing can be sold to an empty reserve. -/
theorem source_pos (h : source.Sale target amount fee power out) (hnonneg : 0 ≤ source.balance.raw) :
    0 < source.balance.raw := by
  rcases Int.lt_or_eq_of_le hnonneg with hpos | hzero
  · exact hpos
  · obtain ⟨hratio, _⟩ := Fixed.raise_eq_ok h.power_eq
    simp [Fixed.quo, ← hzero] at hratio

/-- What the power releases is not nothing, since some of it is paid out. -/
theorem released_pos (h : source.Sale target amount fee power out) :
    0 < (target.balance.mul (Fixed.one - power)).raw := by
  by_contra hneg
  have hout := Fixed.truncateTo_nonpos (Int.not_lt.mp hneg) target.decimals.toNat
  rw [← h.out_eq] at hout
  exact absurd h.out_pos (Int.not_lt.mpr hout)

/-- The reserve that stays is at least the part of it that the power asks for. -/
theorem power_mul_le (h : source.Sale target amount fee power out)
    (hnonneg : 0 ≤ target.balance.raw) :
    0 < target.balance.raw ∧
      target.balance.raw * power.raw ≤ (target.balance.raw - out.raw) * Fixed.scale := by
  have hproduct := h.released_pos
  have hout := Fixed.truncateTo_le (Int.le_of_lt hproduct) target.decimals.toNat
  rw [← h.out_eq] at hout
  obtain ⟨hbalance, hrest⟩ := Fixed.pos_of_raw_mul_pos hnonneg hproduct
  have hmul := Fixed.raw_mul_le hnonneg (Int.le_of_lt hrest)
  have hone : (Fixed.one - power).raw = Fixed.scale - power.raw := rfl
  rw [hone, Int.mul_sub] at hmul
  have hscaled := Int.mul_le_mul_of_nonneg_right hout (Int.le_of_lt Fixed.scale_pos)
  exact ⟨hbalance, by linarith⟩

/-- **What a sale brings** is less than the reserve, unless the sale drains it; it is never more. -/
theorem le_balance (h : source.Sale target amount fee power out) (hnonneg : 0 ≤ target.balance.raw) :
    out.raw ≤ target.balance.raw ∧
      (out.raw = target.balance.raw ↔ source.Drains target amount fee) := by
  have hpower := Fixed.raise_nonneg h.power_eq
  have hdrains : source.Drains target amount fee ↔
      power.raw = 0 ∧ Fixed.unitOf target.decimals.toNat ∣ target.balance.raw := by
    rw [Drains, h.power_eq, Except.ok.injEq, Fixed.ext_iff]
    rfl
  rw [hdrains]
  rcases Int.lt_or_eq_of_le hpower with hpos | hzero
  · -- a positive power keeps a part of the reserve
    obtain ⟨hbalance, hkeeps⟩ := h.power_mul_le hnonneg
    have hleft : 0 < target.balance.raw - out.raw :=
      pos_of_mul_pos_left (Int.lt_of_lt_of_le (Int.mul_pos hbalance hpos) hkeeps)
        (Int.le_of_lt Fixed.scale_pos)
    exact ⟨by omega, by omega⟩
  · -- a power of zero leaves it to the units of the target
    have hone : Fixed.one - power = Fixed.one := by
      rw [Fixed.ext_iff, Fixed.raw_sub, ← hzero, Int.sub_zero]
    have hout := h.out_eq
    rw [hone, Fixed.mul_one] at hout
    rw [hout, Fixed.truncateTo_eq_iff]
    exact ⟨Fixed.truncateTo_le hnonneg _, by simp [← hzero]⟩

end Sale

end Asset

/-! ## Committed operations -/

namespace Pool

/-- Some market, at some moment and in some state, commits a request on a pool, which stages another. -/
def Step (p : Pool) (r : Request) (q : Pool) : Prop :=
  ∃ m m' plan, m.repository.load r.pool = .ok p ∧ Market.attempt r m = (.ok plan, m') ∧ plan.pool = q

/-- Requests that were committed one after the other, each with the pool that it found. -/
inductive Run : Pool → List (Pool × Request) → Pool → Prop
  | nil (p : Pool) : Run p [] p
  | cons {p q s : Pool} {r : Request} {rest : List (Pool × Request)}
      (step : Step p r q) (run : Run q rest s) : Run p ((p, r) :: rest) s

/-- The request sells a coin that empties the reserve of a denomination. -/
def DrainedBy (p : Pool) (r : Request) (denom : String) : Prop :=
  ∃ coin minimum source target, r.operation = .swapIn coin denom minimum ∧
    p.asset coin.denom = .ok source ∧ p.asset denom = .ok target ∧
      source.Drains target coin.amount p.swapFee

variable {p q : Pool} {r : Request}

theorem exists_planned (h : p.Step r q) :
    ∃ m plan, m.repository.load r.pool = .ok p ∧ Market.Planned m r plan ∧ plan.pool = q := by
  obtain ⟨m, m', plan, hload, hattempt, hq⟩ := h
  exact ⟨m, plan, hload, Market.planned_of_attempt hattempt, hq⟩

/-- Every reserve has moved as its denomination did, and is positive after the step exactly if it was
before and the step has not drained it. -/
def Keeps (p : Pool) (r : Request) (q : Pool) : Prop :=
  q.Valid ∧ ∀ b ∈ q.assets, ∃ a ∈ p.assets, a.denom = b.denom ∧
    (0 < b.balance.raw ↔ 0 < a.balance.raw ∧ ¬ p.DrainedBy r b.denom)

theorem keeps_shifted {change : String → Int} {supply : Int} (hvalid : q.Valid)
    (hq : q = p.shifted change supply)
    (h : ∀ a ∈ p.assets, 0 < a.balance.raw + change a.denom ↔
      0 < a.balance.raw ∧ ¬ p.DrainedBy r a.denom) : p.Keeps r q := by
  refine ⟨hvalid, ?_⟩
  intro b hb
  rw [hq, mem_assets_shifted] at hb
  obtain ⟨a, ha, rfl⟩ := hb
  exact ⟨a, ha, rfl, h a ha⟩

/-- Only a sale drains. -/
theorem not_drainedBy {denom : String}
    (h : ∀ coin denomOut minimum, r.operation ≠ .swapIn coin denomOut minimum) :
    ¬ p.DrainedBy r denom := by
  rintro ⟨coin, minimum, _, _, hoperation, _⟩
  exact h coin denom minimum hoperation

/-! ### Trades -/

/-- Which reserves a trade leaves positive: all but, maybe, the one that pays. -/
theorem keeps_trade {taken given : Coin} {source target : Asset} (hp : p.Valid)
    (hne : taken.denom ≠ given.denom) (hsource : p.asset taken.denom = .ok source)
    (htarget : p.asset given.denom = .ok target) (hsourcePos : 0 < source.balance.raw)
    (htaken : 0 < taken.amount.raw) (htrade : p.trade taken given = .ok q)
    (hother : ∀ d, d ≠ given.denom → ¬ p.DrainedBy r d)
    (hgiven : given.amount.raw < target.balance.raw ↔
      0 < target.balance.raw ∧ ¬ p.DrainedBy r given.denom) : p.Keeps r q := by
  obtain ⟨hvalid, hq⟩ := trade_eq_ok hp htrade
  obtain ⟨hsmem, hsdenom⟩ := mem_of_asset hsource
  obtain ⟨htmem, htdenom⟩ := mem_of_asset htarget
  refine keeps_shifted hvalid hq ?_
  intro a ha
  by_cases hin : a.denom = taken.denom
  · obtain rfl := hp.eq_of_denom ha hsmem (hin.trans hsdenom.symm)
    have hnot := hother a.denom (hin ▸ hne)
    simp only [Coin.total_cons, Coin.total_nil, hin, if_true, Ne.symm hne, if_false]
    rw [hin] at hnot
    exact ⟨fun _ => ⟨hsourcePos, hnot⟩, fun _ => by omega⟩
  by_cases hout : a.denom = given.denom
  · obtain rfl := hp.eq_of_denom ha htmem (hout.trans htdenom.symm)
    simp only [Coin.total_cons, Coin.total_nil, hout, if_true, hne, if_false]
    rw [← hgiven]
    constructor <;> intro h <;> omega
  · have hnot := hother a.denom hout
    simp only [Coin.total_cons, Coin.total_nil, Ne.symm hin, Ne.symm hout, if_false]
    exact ⟨fun h => ⟨by omega, hnot⟩, fun h => by omega⟩

/-- What a sale drains is settled by its two assets. -/
theorem drainedBy_swapIn_iff {sender : String} {pool : Int} {coin : Coin} {denomOut : String}
    {minimum : Fixed} {source target : Asset} (hsource : p.asset coin.denom = .ok source)
    (htarget : p.asset denomOut = .ok target) (denom : String) :
    p.DrainedBy ⟨sender, pool, .swapIn coin denomOut minimum⟩ denom ↔
      denom = denomOut ∧ source.Drains target coin.amount p.swapFee := by
  constructor
  · rintro ⟨coin', minimum', source', target', hoperation, hsource', htarget', hdrains⟩
    cases hoperation
    cases hsource.symm.trans hsource'
    cases htarget.symm.trans htarget'
    exact ⟨rfl, hdrains⟩
  · rintro ⟨rfl, hdrains⟩
    exact ⟨coin, minimum, source, target, rfl, hsource, htarget, hdrains⟩

/-! ### Deposits -/

/-- Nothing can be deposited in an empty reserve. -/
theorem Deposits.balance_pos {coin : Coin} {fee issued : Fixed} {a : Asset} {j : Join}
    (h : p.Deposits coin fee a issued j) : 0 < a.balance.raw := by
  have hissued := h.issued_eq
  rw [sharesForDeposit, bind_eq_ok] at hissued
  obtain ⟨rest, _, hissued⟩ := hissued
  rw [bind_eq_ok] at hissued
  obtain ⟨d, hd, _⟩ := hissued
  exact (Curve.delta_eq_ok hd).1

theorem keeps_join {coin : Coin} {fee issued : Fixed} {a : Asset} {j : Join} (hp : p.Valid)
    (h : p.Deposits coin fee a issued j) (hnot : ∀ d, ¬ p.DrainedBy r d) : p.Keeps r j.pool := by
  obtain ⟨hmem, hdenom⟩ := mem_of_asset h.asset
  have hbalance := h.balance_pos
  have hamount := h.amount_pos
  refine keeps_shifted h.valid h.pool ?_
  intro b hb
  by_cases hin : b.denom = coin.denom
  · obtain rfl := hp.eq_of_denom hb hmem (hin.trans hdenom.symm)
    simp only [Coin.total_cons, Coin.total_nil, hin, if_true]
    exact ⟨fun _ => ⟨hbalance, hnot _⟩, fun _ => by omega⟩
  · simp only [Coin.total_cons, Coin.total_nil, Ne.symm hin, if_false]
    exact ⟨fun hpos => ⟨by omega, hnot _⟩, fun hpos => by omega⟩

/-! ### Redemptions -/

/-- The exit fee only lowers what is paid out. -/
theorem refunded_le {shares fee refund : Fixed} (hfee : fee.IsFee) (hshares : 0 < shares.raw)
    (h : p.refunded shares fee = .ok refund) : 0 ≤ refund.raw ∧ refund.raw ≤ shares.raw := by
  unfold refunded at h
  split at h
  · cases h
    exact ⟨Int.le_of_lt hshares, Int.le_refl _⟩
  rw [bind_eq_ok] at h
  obtain ⟨rest, hrest, h⟩ := h
  obtain ⟨_, rfl⟩ := Fee.complement_eq_ok.mp hrest
  obtain ⟨hnonneg, hle⟩ := hfee.kept_bounds (Int.le_of_lt hshares)
  rw [Fixed.truncate_eq_truncateTo h]
  exact ⟨Fixed.truncateTo_nonneg hnonneg _, Int.le_trans (Fixed.truncateTo_le hnonneg _) hle⟩

theorem Redeems.supply_pos {shares fee refund ratio : Fixed} {e : Exit}
    (h : p.Redeems shares fee refund ratio e) : 0 < p.totalShares.raw :=
  Int.lt_trans h.shares_pos h.shares_lt

theorem Redeems.ratio_nonneg {shares fee refund ratio : Fixed} {e : Exit}
    (h : p.Redeems shares fee refund ratio e) : 0 ≤ ratio.raw := by
  rw [h.ratio_eq]
  exact Fixed.raw_quo_nonneg (refunded_le h.isFee h.shares_pos h.refund_eq).1 (Int.le_of_lt h.supply_pos)

/-- Less than all the shares are paid less than all of a reserve. -/
theorem Redeems.due_lt {shares fee refund ratio : Fixed} {e : Exit} {a : Asset}
    (h : p.Redeems shares fee refund ratio e) (ha : 0 < a.balance.raw) :
    (due ratio a).raw < a.balance.raw := by
  obtain ⟨hnonneg, hle⟩ := refunded_le h.isFee h.shares_pos h.refund_eq
  have htotal := h.supply_pos
  have hratioNonneg := h.ratio_nonneg
  have hratio : ratio.raw < Fixed.scale := by
    have hquo := Fixed.raw_quo_le hnonneg htotal
    rw [← h.ratio_eq] at hquo
    refine Int.lt_of_mul_lt_mul_right (Int.lt_of_le_of_lt hquo ?_) (Int.le_of_lt htotal)
    rw [Int.mul_comm]
    exact Int.mul_lt_mul_of_pos_left (Int.lt_of_le_of_lt hle h.shares_lt) Fixed.scale_pos
  have hmul := Fixed.raw_mul_le hratioNonneg (Int.le_of_lt ha)
  have hlt : (ratio.mul a.balance).raw < a.balance.raw := by
    refine Int.lt_of_mul_lt_mul_right (Int.lt_of_le_of_lt hmul ?_) (Int.le_of_lt Fixed.scale_pos)
    rw [Int.mul_comm a.balance.raw]
    exact Int.mul_lt_mul_of_pos_right hratio ha
  refine Int.lt_of_le_of_lt (Fixed.truncateTo_le ?_ _) hlt
  exact Fixed.raw_mul_nonneg hratioNonneg (Int.le_of_lt ha)

theorem keeps_exit {shares fee refund ratio : Fixed} {e : Exit} (hp : p.Valid)
    (h : p.Redeems shares fee refund ratio e) (hnot : ∀ d, ¬ p.DrainedBy r d) :
    p.Keeps r e.pool := by
  refine keeps_shifted h.valid h.pool ?_
  intro a ha
  have hbalance := (hp.assets a ha).balance_nonneg
  rw [h.coins_eq, total_payouts hp.nodup ratio ha]
  by_cases howes : owes ratio a
  · have hdue : 0 < (due ratio a).raw := of_decide_eq_true howes
    rw [if_pos howes]
    constructor
    · intro hleft
      exact ⟨by omega, hnot _⟩
    · rintro ⟨hpos, _⟩
      have := h.due_lt hpos
      omega
  · rw [if_neg howes]
    exact ⟨fun hpos => ⟨by omega, hnot _⟩, fun hpos => by omega⟩

/-! ## Steps and runs -/

/-- The step lemma, one case for each operation. -/
theorem keeps_step (hp : p.Valid) (h : p.Step r q) : p.Keeps r q := by
  obtain ⟨m, plan, hload, hplan, hq⟩ := exists_planned h
  cases hplan with
  | swapIn sides sale enough trade =>
    cases sides.load.symm.trans hload
    subst hq
    obtain ⟨power, hsale⟩ := Asset.amountOut_eq_ok sale
    have hmem := (mem_of_asset sides.target).1
    have hnonneg := (hp.assets _ hmem).balance_nonneg
    have hsourcePos := hsale.source_pos (hp.assets _ (mem_of_asset sides.source).1).balance_nonneg
    obtain ⟨hle, hiff⟩ := hsale.le_balance hnonneg
    have hpos := hsale.out_pos
    refine keeps_trade hp sides.denom_ne sides.source sides.target hsourcePos sides.traded_pos trade ?_ ?_
    · intro d hd
      rw [drainedBy_swapIn_iff sides.source sides.target]
      exact fun hdrains => hd hdrains.1
    · rw [drainedBy_swapIn_iff sides.source sides.target, ← hiff]
      dsimp only
      constructor
      · intro hlt
        exact ⟨by omega, by omega⟩
      · rintro ⟨_, hne⟩
        have hne : _ ≠ _ := fun heq => hne ⟨rfl, heq⟩
        omega
  | @swapOut sender pool denomIn maximum coin p' source target charged out staged sides available
      charged_pos sale enough within trade =>
    cases sides.load.symm.trans hload
    subst hq
    obtain ⟨power, hsale⟩ := Asset.amountOut_eq_ok sale
    have hsourcePos := hsale.source_pos (hp.assets _ (mem_of_asset sides.source).1).balance_nonneg
    have hpos := sides.traded_pos
    have hlt := Fixed.lt_def.mp available
    have hnot (d : String) : ¬ p.DrainedBy ⟨sender, pool, .swapOut denomIn maximum coin⟩ d :=
      not_drainedBy (by simp)
    refine keeps_trade hp sides.denom_ne sides.source sides.target hsourcePos charged_pos trade
      (fun d _ => hnot d) ?_
    exact ⟨fun _ => ⟨by omega, hnot _⟩, fun _ => hlt⟩
  | join load active joins enough =>
    cases load.symm.trans hload
    subst hq
    obtain ⟨a, issued, hdeposit⟩ := joinWith_eq_ok hp joins
    exact keeps_join hp hdeposit fun d => not_drainedBy (by simp)
  | exit load exits =>
    cases load.symm.trans hload
    subst hq
    obtain ⟨refund, ratio, hredeem⟩ := exit_eq_ok hp exits
    exact keeps_exit hp hredeem fun d => not_drainedBy (by simp)

/-- The run lemma: a reserve is positive in the end exactly if it was in the beginning and no step
has drained it. -/
theorem keeps_run {steps : List (Pool × Request)} (hp : p.Valid) (h : Run p steps q) :
    q.Valid ∧ ∀ b ∈ q.assets, ∃ a ∈ p.assets, a.denom = b.denom ∧
      (0 < b.balance.raw ↔ 0 < a.balance.raw ∧ ∀ s ∈ steps, ¬ s.1.DrainedBy s.2 b.denom) := by
  induction h with
  | nil p => exact ⟨hp, fun b hb => ⟨b, hb, rfl, by simp⟩⟩
  | @cons p p' q r rest step run ih =>
    obtain ⟨hvalid, hstep⟩ := keeps_step hp step
    obtain ⟨hvalid', hrun⟩ := ih hvalid
    refine ⟨hvalid', ?_⟩
    intro c hc
    obtain ⟨b, hb, hbc, hiff'⟩ := hrun c hc
    obtain ⟨a, ha, hab, hiff⟩ := hstep b hb
    refine ⟨a, ha, hab.trans hbc, ?_⟩
    rw [hiff', hiff, hbc, List.forall_mem_cons, and_assoc]

/-- **When reserves stay positive.**  After every run of committed operations on a valid pool with
positive reserves there are shares, and a reserve is positive exactly if no sale of the run has
drained it; and a quoted sale is below the reserve exactly if it does not drain it. -/
theorem reserves_positive_iff (hp : p.Valid) (hpos : ∀ a ∈ p.assets, 0 < a.balance.raw) :
    (∀ steps q, Run p steps q → 0 < q.totalShares.raw ∧ ∀ b ∈ q.assets,
      (0 < b.balance.raw ↔ ∀ s ∈ steps, ¬ s.1.DrainedBy s.2 b.denom)) ∧
    ∀ source ∈ p.assets, ∀ target ∈ p.assets, ∀ amount fee out,
      source.amountOut target amount fee = .ok out →
        (out.raw < target.balance.raw ↔ ¬ source.Drains target amount fee) := by
  constructor
  · intro steps q hrun
    obtain ⟨hvalid, hkeeps⟩ := keeps_run hp hrun
    refine ⟨hvalid.shares_pos, ?_⟩
    intro b hb
    obtain ⟨a, ha, _, hiff⟩ := hkeeps b hb
    rw [hiff]
    exact and_iff_right (hpos a ha)
  · intro source _ target htarget amount fee out hout
    obtain ⟨power, hsale⟩ := Asset.amountOut_eq_ok hout
    obtain ⟨hle, hiff⟩ := hsale.le_balance (Int.le_of_lt (hpos target htarget))
    rw [← hiff]
    exact ⟨fun hlt => by omega, fun hne => by omega⟩

/-- A redemption drains nothing, so both reserves of `evenPool` stay positive. -/
theorem leaving_keeps_reserves : 0 < leavingPlan.pool.totalShares.raw ∧
    ∀ b ∈ leavingPlan.pool.assets, 0 < b.balance.raw := by
  have hattempt : Market.attempt leaving (Market.keeping [evenPool] evenLedger none) =
      (.ok leavingPlan, (Market.attempt leaving (Market.keeping [evenPool] evenLedger none)).2) :=
    Prod.ext (attempt_leaving none) rfl
  have hstep : Step evenPool leaving leavingPlan.pool := ⟨_, _, _, rfl, hattempt, rfl⟩
  obtain ⟨hshares, hreserves⟩ := (reserves_positive_iff evenPool_valid (by decide)).1 _ _
    (.cons hstep (.nil _))
  refine ⟨hshares, ?_⟩
  intro b hb
  rw [hreserves b hb]
  intro s hs
  rw [List.mem_singleton.mp hs]
  exact not_drainedBy (by simp [leaving])

/-! ## A sale that drains -/

/-- A pool of one coin each, with a weight of a hundred against one. -/
def lopsidedPool : Pool where
  id := 1
  assets := [⟨"a", .one, .ofInt 100, 18⟩, ⟨"b", .one, .one, 18⟩]
  totalShares := .ofInt 100
  swapFee := .zero
  exitFee := .zero
  window := none
  shareDecimals := 18

/-- One coin is sold to `lopsidedPool`, whose invariant asks for a two-to-the-hundredth of the other
reserve to stay. -/
def sellOne : Request := ⟨"alice", 1, .swapIn ⟨"a", .one⟩ "b" .zero⟩

/-- The plan of `sellOne`: the whole reserve is paid out. -/
def sellOnePlan : Plan where
  pool := { lopsidedPool with assets := [⟨"a", .ofInt 2, .ofInt 100, 18⟩, ⟨"b", .zero, .one, 18⟩] }
  event := ⟨.swap, 1, "alice", [⟨"a", .one⟩], [⟨"b", .one⟩]⟩
  receipt := .amount .one

/-- A valid pool with positive reserves, and a committed sale that leaves one of them empty. -/
theorem lopsided_drained : lopsidedPool.Valid ∧ (∀ a ∈ lopsidedPool.assets, 0 < a.balance.raw) ∧
    ∃ q, Run lopsidedPool [(lopsidedPool, sellOne)] q ∧ ∃ b ∈ q.assets, b.balance.raw = 0 := by
  have hattempt : (Market.attempt sellOne (Market.keeping [lopsidedPool]
      ((Ledger.empty.mint "alice" ⟨"a", .one⟩).mint lopsidedPool.address ⟨"b", .one⟩) none)).1 =
        .ok sellOnePlan := by
    decide +kernel
  have hstep : Step lopsidedPool sellOne sellOnePlan.pool :=
    ⟨_, _, _, rfl, Prod.ext hattempt rfl, rfl⟩
  exact ⟨by decide, by decide, _, .cons hstep (.nil _), ⟨"b", .zero, .one, 18⟩, by decide, rfl⟩

end Pool

end WeightedMarket
