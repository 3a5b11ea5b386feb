/-
  What leaving with more brings.

  Only one thing keeps some, but not all, of a valid pool's shares from being redeemed: no asset owes as
  much as a unit (`exit_eq`).  So what is paid of an asset is one function of the shares and the fee, also
  where the asset is skipped, and where all are and the redemption is refused (`paidOnExit_eq`).

  Each step of that function keeps the order.  The refund is the one with two forms: a fee of zero neither
  multiplies nor truncates.  But what the other form does only lowers, so the form without a fee is
  above it for as many shares (`refund_le_refund`).
-/
import WeightedMarket.Proofs.Purchase
import WeightedMarket.Proofs.Redemption

namespace WeightedMarket.Pool

open Decision

variable {p : Pool} {shares shares' fee fee' ratio ratio' : Fixed} {a : Asset}

/-! ## The refund -/

/-- The shares that are paid out, at a fee that is one. -/
def refund (p : Pool) (shares fee : Fixed) : Fixed :=
  if fee.raw = 0 then shares else (shares.mul (Fixed.one - fee)).truncateTo p.shareDecimals.toNat

theorem refunded_eq_refund (hp : p.Valid) (hfee : fee.IsFee) :
    p.refunded shares fee = .ok (p.refund shares fee) := by
  unfold refunded refund
  by_cases hzero : fee.raw = 0
  · rw [if_pos hzero, if_pos hzero]
    rfl
  · rw [if_neg hzero, if_neg hzero, Fee.complement_eq_ok.mpr ⟨hfee, rfl⟩, ok_bind]
    exact Fixed.truncate_of_isPrecision hp.shareDecimals _

/-- More shares at a lower fee are refunded at least as much. -/
theorem refund_le_refund (hpos : 0 ≤ shares.raw) (hshares : shares ≤ shares') (hfee : fee.IsFee)
    (hnonneg : 0 ≤ fee'.raw) (hfees : fee' ≤ fee) :
    (p.refund shares fee).raw ≤ (p.refund shares' fee').raw := by
  unfold refund
  by_cases hzero' : fee'.raw = 0
  · -- the form without a fee is above both forms for fewer shares
    rw [if_pos hzero']
    by_cases hzero : fee.raw = 0
    · rw [if_pos hzero]
      exact hshares
    · rw [if_neg hzero]
      obtain ⟨hkept, hle⟩ := hfee.kept_bounds hpos
      calc ((shares.mul (Fixed.one - fee)).truncateTo p.shareDecimals.toNat).raw
          ≤ (shares.mul (Fixed.one - fee)).raw := Fixed.truncateTo_le hkept _
        _ ≤ shares.raw := hle
        _ ≤ shares'.raw := hshares
  · -- the higher fee is not zero either
    have hzero : fee.raw ≠ 0 := by
      have := Fixed.le_def.mp hfees
      omega
    rw [if_neg hzero, if_neg hzero']
    exact Fixed.truncateTo_le_truncateTo (hfee.kept_le_kept hpos hshares hfees) _

/-! ## What is due -/

/-- The part of the reserves that shares are paid. -/
def refundedPart (p : Pool) (shares fee : Fixed) : Fixed := (p.refund shares fee).quo p.totalShares

theorem refundedPart_bounds (hp : p.Valid) (hpos : 0 < shares.raw) (hlt : shares < p.totalShares)
    (hfee : fee.IsFee) :
    0 ≤ (p.refundedPart shares fee).raw ∧ (p.refundedPart shares fee).raw ≤ Fixed.scale := by
  obtain ⟨hnonneg, hle⟩ := refunded_le hfee hpos (refunded_eq_refund hp hfee)
  have hsupply := hp.shares_pos
  have hlt := Fixed.lt_def.mp hlt
  exact ⟨Fixed.raw_quo_nonneg hnonneg (Int.le_of_lt hsupply),
    Fixed.raw_quo_le_scale hnonneg hsupply (by omega)⟩

/-- At most the whole of a reserve is due. -/
theorem due_le_balance (h0 : 0 ≤ ratio.raw) (h1 : ratio.raw ≤ Fixed.scale) (ha : 0 ≤ a.balance.raw) :
    (due ratio a).raw ≤ a.balance.raw := by
  have hproduct := Fixed.raw_mul_le_left ha h1
  rw [Fixed.mul, Int.mul_comm] at hproduct
  exact (Fixed.truncateTo_le (Fixed.raw_mul_nonneg h0 ha) _).trans hproduct

/-- Of a larger part at least as much is due. -/
theorem due_le_due (h0 : 0 ≤ ratio.raw) (h : ratio.raw ≤ ratio'.raw) (ha : 0 ≤ a.balance.raw) :
    (due ratio a).raw ≤ (due ratio' a).raw :=
  Fixed.truncateTo_le_truncateTo (Fixed.raw_mul_le_raw_mul h0 ha h (Int.le_refl _)) _

/-! ## Redemptions that go through -/

theorem payment?_of_valid (ha : a.Valid) (ratio : Fixed) :
    payment? ratio a = .ok (if owes ratio a then some ⟨a.denom, due ratio a⟩ else none) := by
  have hanswer : ∃ c, payment? ratio a = .ok c := by
    rw [payment?, Fixed.truncate_of_isPrecision ha.decimals, ok_bind]
    exact ⟨_, rfl⟩
  obtain ⟨c, hc⟩ := hanswer
  rw [hc, payment?_eq_ok hc]

/-- The rest of a redemption, once the part of the reserves is known. -/
def payOut (p : Pool) (shares ratio : Fixed) : Except Failure Exit := do
  require (!(payouts ratio p.assets).isEmpty) (.approx (.withdrawsNothing shares))
  let q ← p.withBalances
    ((p.assets.filter (owes ratio)).map fun a => (a.denom, a.balance - due ratio a))
  return ⟨payouts ratio p.assets, ← q.withTotalShares (p.totalShares - shares)⟩

/-- What comes before cannot refuse. -/
theorem exit_eq_payOut (hp : p.Valid) (hpos : 0 < shares.raw) (hlt : shares < p.totalShares)
    (hfee : fee.IsFee) : p.exit shares fee = p.payOut shares (p.refundedPart shares fee) := by
  have hcheck : Fee.check fee = .ok () := require_eq_ok.mpr (decide_eq_true hfee)
  have hdivide : (p.refund shares fee).divide p.totalShares = .ok (p.refundedPart shares fee) :=
    Fixed.divide_eq_ok (Int.ne_of_gt hp.shares_pos)
  have hpayments : p.assets.mapM (fun a => do return (a, ← payment? (p.refundedPart shares fee) a)) =
      .ok (p.assets.map fun a => (a, if owes (p.refundedPart shares fee) a then
        some (⟨a.denom, due (p.refundedPart shares fee) a⟩ : Coin) else none)) :=
    mapM_of_ok fun a ha => by
      rw [payment?_of_valid (hp.assets a ha)]
      rfl
  rw [exit, hcheck, ok_bind, require_eq_ok.mpr (decide_eq_true hlt), ok_bind,
    require_eq_ok.mpr (decide_eq_true hpos), ok_bind, refunded_eq_refund hp hfee, ok_bind, hdivide,
    ok_bind, hpayments, ok_bind, List.filterMap_map, filterMap_owes (p.refundedPart shares fee) ?pays]
  case pays => exact fun _ => rfl
  dsimp only
  rw [List.map_map, List.map_map]
  rfl

/-- Nothing is paid out, and that is refused. -/
theorem payOut_of_nothing (h : payouts ratio p.assets = []) :
    p.payOut shares ratio = refuse (.approx (.withdrawsNothing shares)) := by
  rw [payOut, h]
  rfl

/-- Coins are paid out if reserves and shares suffice. -/
theorem exists_payOut_eq (hp : p.Valid) (hlt : shares < p.totalShares) (h0 : 0 ≤ ratio.raw)
    (h1 : ratio.raw ≤ Fixed.scale) (h : payouts ratio p.assets ≠ []) :
    ∃ q, p.payOut shares ratio = .ok ⟨payouts ratio p.assets, q⟩ := by
  have hsome : (!(payouts ratio p.assets).isEmpty) = true := by
    rw [Bool.not_eq_true', List.isEmpty_eq_false_iff]
    exact h
  have hleft : 0 < (p.totalShares - shares).raw := Int.sub_pos_of_lt (Fixed.lt_def.mp hlt)
  have hbalances := withBalances_of_nonneg hp
    ((p.assets.filter (owes ratio)).map fun a => (a.denom, a.balance - due ratio a)) ?known ?nonneg
  case known =>
    intro e he
    obtain ⟨a, ha, rfl⟩ := List.mem_map.mp he
    exact List.mem_map_of_mem (List.mem_of_mem_filter ha)
  case nonneg =>
    intro e he
    obtain ⟨a, ha, rfl⟩ := List.mem_map.mp he
    have hbalance := (hp.assets a (List.mem_of_mem_filter ha)).balance_nonneg
    exact Int.sub_nonneg_of_le (due_le_balance h0 h1 hbalance)
  rw [payOut, require_eq_ok.mpr hsome, ok_bind, hbalances, ok_bind,
    withTotalShares_of_pos (withBalances_eq_ok hp hbalances).1 hleft]
  exact ⟨_, rfl⟩

/-! ## What is paid -/

/-- What a redemption pays of a denomination: nothing if it is refused. -/
def paidOnExit (p : Pool) (shares fee : Fixed) (denom : String) : Int :=
  match p.exit shares fee with
  | .ok e => Coin.total e.coins denom
  | .error _ => 0

/-- **What is paid of an asset** is what it owes, also if it is skipped and if all are; and only that
all are is refused. -/
theorem paidOnExit_eq (hp : p.Valid) (hpos : 0 < shares.raw) (hlt : shares < p.totalShares)
    (hfee : fee.IsFee) :
    ((∃ e, p.exit shares fee = .ok e) ∨
        p.exit shares fee = refuse (.approx (.withdrawsNothing shares))) ∧
      ∀ a ∈ p.assets, p.paidOnExit shares fee a.denom = (due (p.refundedPart shares fee) a).raw := by
  obtain ⟨h0, h1⟩ := refundedPart_bounds hp hpos hlt hfee
  have hexit := exit_eq_payOut hp hpos hlt hfee
  -- a refusal is the case in which every asset owes nothing, so what is paid is due there too
  by_cases hnothing : payouts (p.refundedPart shares fee) p.assets = []
  · rw [payOut_of_nothing hnothing] at hexit
    refine ⟨.inr hexit, ?_⟩
    intro a ha
    rw [paidOnExit, hexit, ← total_payouts_eq_due hp h0 ha, hnothing]
    rfl
  · obtain ⟨q, hpaid⟩ := exists_payOut_eq hp hlt h0 h1 hnothing
    rw [hpaid] at hexit
    refine ⟨.inl ⟨_, hexit⟩, ?_⟩
    intro a ha
    rw [paidOnExit, hexit, ← total_payouts_eq_due hp h0 ha]

/-- Each step from the shares to what is paid keeps the order. -/
theorem paidOnExit_le_paidOnExit (hp : p.Valid) (hpos : 0 < shares.raw) (hshares : shares ≤ shares')
    (hlt' : shares' < p.totalShares) (hnonneg : 0 ≤ fee'.raw) (hfees : fee' ≤ fee)
    (hone : fee.raw < Fixed.scale) (ha : a ∈ p.assets) :
    p.paidOnExit shares fee a.denom ≤ p.paidOnExit shares' fee' a.denom := by
  have hfee : fee.IsFee := ⟨Int.le_trans hnonneg hfees, hone⟩
  have hfee' : fee'.IsFee := ⟨hnonneg, Int.lt_of_le_of_lt hfees hone⟩
  have hpos' : 0 < shares'.raw := Int.lt_of_lt_of_le hpos hshares
  have hlt : shares < p.totalShares := Int.lt_of_le_of_lt hshares hlt'
  have hrefund := refund_le_refund (p := p) (Int.le_of_lt hpos) hshares hfee hnonneg hfees
  rw [(paidOnExit_eq hp hpos hlt hfee).2 a ha, (paidOnExit_eq hp hpos' hlt' hfee').2 a ha]
  exact due_le_due (refundedPart_bounds hp hpos hlt hfee).1
    (Fixed.raw_quo_le_raw_quo hp.shares_pos hrefund) (hp.assets a ha).balance_nonneg

/-- **Leaving with more brings more.**  Some, but not all, of a valid pool's shares are redeemed, or
refused because nothing would be withdrawn, and are paid what is due of every asset, an asset that is
skipped or refused counting as nothing.  More shares at a lower fee are paid at least as much of each; so
a fee never raises what is paid. -/
theorem paidOnExit_mono (hp : p.Valid) :
    (∀ shares fee, 0 < shares.raw → shares < p.totalShares → fee.IsFee →
      ((∃ e, p.exit shares fee = .ok e) ∨
          p.exit shares fee = refuse (.approx (.withdrawsNothing shares))) ∧
        ∀ a ∈ p.assets, p.paidOnExit shares fee a.denom = (due (p.refundedPart shares fee) a).raw) ∧
    (∀ shares shares' fee fee', 0 < shares.raw → shares ≤ shares' → shares' < p.totalShares →
      0 ≤ fee'.raw → fee' ≤ fee → fee.raw < Fixed.scale → ∀ a ∈ p.assets,
        p.paidOnExit shares fee a.denom ≤ p.paidOnExit shares' fee' a.denom) ∧
    ∀ shares fee, 0 < shares.raw → shares < p.totalShares → fee.IsFee → ∀ a ∈ p.assets,
      p.paidOnExit shares fee a.denom ≤ p.paidOnExit shares .zero a.denom := by
  refine ⟨?answers, ?more, ?zero⟩
  case answers =>
    intro shares fee hpos hlt hfee
    exact paidOnExit_eq hp hpos hlt hfee
  case more =>
    intro shares shares' fee fee' hpos hshares hlt hnonneg hfees hone a ha
    exact paidOnExit_le_paidOnExit hp hpos hshares hlt hnonneg hfees hone ha
  case zero =>
    intro shares fee hpos hlt hfee a ha
    exact paidOnExit_le_paidOnExit hp hpos (Int.le_refl _) hlt (Int.le_refl 0) hfee.1 hfee.2 ha

/-! ## Dust, and a whole share -/

/-- Of `unequalPool` a raw unit of a share withdraws nothing, at its exit fee a whole one is paid two of
the seven coins and 330 of the thousand, and without a fee a third of the thousand. -/
theorem unequalPool_leaving :
    unequalPool.exit ⟨1⟩ unequalPool.exitFee = refuse (.approx (.withdrawsNothing ⟨1⟩)) ∧
    unequalPool.paidOnExit ⟨1⟩ unequalPool.exitFee "b" ≤ 2 * Fixed.scale ∧
    330 * Fixed.scale ≤ unequalPool.paidOnExit .one .zero "a" := by
  obtain ⟨_, hmono, hzero⟩ := paidOnExit_mono unequalPool_valid
  have hdust : unequalPool.exit ⟨1⟩ unequalPool.exitFee =
      refuse (.approx (.withdrawsNothing ⟨1⟩)) := by
    decide +kernel
  have hcoins : unequalPool.paidOnExit .one unequalPool.exitFee "b" = 2 * Fixed.scale := by
    decide +kernel
  have hthousand : unequalPool.paidOnExit .one unequalPool.exitFee "a" = 330 * Fixed.scale := by
    decide +kernel
  refine ⟨hdust, ?_, ?_⟩
  · rw [← hcoins]
    exact hmono ⟨1⟩ .one _ _ (by decide) (by decide) (by decide) (by decide) (by decide) (by decide)
      ⟨"b", .ofInt 7, .ofInt 2, 0⟩ (by decide)
  · rw [← hthousand]
    exact hzero .one _ (by decide) (by decide) (by decide) ⟨"a", .ofInt 1000, .one, 6⟩ (by decide)

end WeightedMarket.Pool
