/-
  Prices of a pool.

  The price of one asset in another is the ratio of their worths, the worth of an asset being its reserve per
  weight (`Asset.worth`).  The price the other way round is the reciprocal ratio.  Both are rounded down, each
  by less than one unit, and what a unit of the one counts for is multiplied by the other; so their product
  falls short of one by as many units as the two ratios together, and one for its own rounding.  That holds
  for lopsided pools, too, where one of the prices is too small to be seen (`quo_mul_quo_bounds`).
-/
import WeightedMarket.Proofs.Staging
import WeightedMarket.Proofs.Quote
import WeightedMarket.Proofs.Value

namespace WeightedMarket

open Decision

/-! ## Quotients and their reciprocals -/

namespace Fixed

variable {a b : Fixed}

/-- **A quotient and its reciprocal** multiply to at most one, and what is missing counts in units of the
last place for the roundings of both and of their product. -/
theorem quo_mul_quo_bounds (ha : 0 < a.val) (hb : 0 < b.val) :
    ((a.quo b).mul (b.quo a)).val ≤ 1 ∧
    1 - (1 + a.val / b.val + b.val / a.val) * ulp ≤ ((a.quo b).mul (b.quo a)).val := by
  have hulp := ulp_pos
  have hratio : 0 < a.val / b.val := div_pos ha hb
  have hratio' : 0 < b.val / a.val := div_pos hb ha
  have hone : a.val / b.val * (b.val / a.val) = 1 := by
    rw [div_mul_div_comm, mul_comm a.val, div_self (mul_pos hb ha).ne']
  have hquo : 0 ≤ (a.quo b).val :=
    val_nonneg.mpr (raw_quo_nonneg (val_nonneg.mp ha.le) (val_nonneg.mp hb.le))
  have hquo' : 0 ≤ (b.quo a).val :=
    val_nonneg.mpr (raw_quo_nonneg (val_nonneg.mp hb.le) (val_nonneg.mp ha.le))
  have hle := val_quo_le ha.le hb
  have hle' := val_quo_le hb.le ha
  have hlt := lt_val_quo a hb
  have hlt' := lt_val_quo b ha
  constructor
  · calc ((a.quo b).mul (b.quo a)).val ≤ (a.quo b).val * (b.quo a).val := val_mul_le hquo hquo'
      _ ≤ a.val / b.val * (b.val / a.val) := mul_le_mul hle hle' hquo' hratio.le
      _ = 1 := hone
  · -- what the one quotient lacks is worth the other one times as much
    have hlack : (a.val / b.val - (a.quo b).val) * (b.val / a.val) ≤ ulp * (b.val / a.val) :=
      mul_le_mul_of_nonneg_right (by linarith) hratio'.le
    have hlack' : (a.quo b).val * (b.val / a.val - (b.quo a).val) ≤ a.val / b.val * ulp :=
      mul_le_mul hle (by linarith) (by linarith) hratio.le
    have hproduct := lt_val_mul (a.quo b) (b.quo a)
    linarith

end Fixed

/-! ## Worths and prices -/

/-- The reserve of an asset per weight. -/
def Asset.worth (a : Asset) : Fixed := a.balance.quo a.weight

theorem Asset.Valid.worth_nonneg {a : Asset} (h : a.Valid) : 0 ≤ a.worth.raw :=
  Fixed.raw_quo_nonneg h.balance_nonneg (Int.le_of_lt h.weight_pos)

namespace Pool

variable {p : Pool} {quote base : String} {price full : Fixed}

/-- **A price is answered** if the quote asset is worth anything; it is the ratio of the worths. -/
theorem spotPrice_eq_ok (hp : p.Valid) :
    p.spotPrice quote base = .ok price ↔ ∃ q b, p.asset quote = .ok q ∧ p.asset base = .ok b ∧
      0 < q.worth.raw ∧ price = b.worth.quo q.worth := by
  have hworth {denom : String} {a : Asset} (h : p.asset denom = .ok a) :
      a.balance.divide a.weight = .ok a.worth ∧ 0 ≤ a.worth.raw := by
    have hvalid := hp.assets a (mem_of_asset h).1
    exact ⟨Fixed.divide_eq_ok hvalid.weight_pos.ne', hvalid.worth_nonneg⟩
  constructor
  · intro h
    obtain ⟨q, hq, h⟩ := bind_eq_ok.mp h
    obtain ⟨b, hb, h⟩ := bind_eq_ok.mp h
    obtain ⟨hqworth, hqnonneg⟩ := hworth hq
    rw [(hworth hb).1, ok_bind, hqworth, ok_bind] at h
    obtain ⟨_, hne, h⟩ := bind_eq_ok.mp h
    have hne : q.worth.raw ≠ 0 := of_decide_eq_true (require_eq_ok.mp hne)
    exact ⟨q, b, hq, hb, by omega, (Fixed.divide_eq_quo h).symm⟩
  · rintro ⟨q, b, hq, hb, hpos, rfl⟩
    rw [spotPrice, hq, ok_bind, hb, ok_bind, (hworth hb).1, ok_bind, (hworth hq).1, ok_bind,
      require_eq_ok.mpr (decide_eq_true hpos.ne'), ok_bind]
    exact Fixed.divide_eq_ok hpos.ne'

/-- A price with the fee is answered if the price is. -/
theorem spotPriceWithFee_eq_ok (hp : p.Valid) :
    p.spotPriceWithFee quote base = .ok full ↔ ∃ price, p.spotPrice quote base = .ok price ∧
      full = price.mul (Fixed.one.quo (Fixed.one - p.swapFee)) := by
  have hfee : Fee.complement p.swapFee = .ok (Fixed.one - p.swapFee) :=
    Fee.complement_eq_ok.mpr ⟨hp.swapFee, rfl⟩
  have hrest : Fixed.one.divide (Fixed.one - p.swapFee) = .ok (Fixed.one.quo (Fixed.one - p.swapFee)) :=
    Fixed.divide_eq_ok hp.swapFee.complement_pos.ne'
  rw [spotPriceWithFee, bind_eq_ok]
  refine exists_congr fun price => and_congr_right fun _ => ?_
  rw [hfee, ok_bind, hrest, ok_bind, pure_eq_ok, eq_comm]

/-- A fee does not lower a price. -/
theorem le_price_with_fee (hp : p.Valid) (h : p.spotPrice quote base = .ok price) :
    price ≤ price.mul (Fixed.one.quo (Fixed.one - p.swapFee)) := by
  obtain ⟨q, b, hq, hb, hpos, rfl⟩ := (spotPrice_eq_ok hp).mp h
  have hbase := (hp.assets b (mem_of_asset hb).1).worth_nonneg
  have hraised : Fixed.scale ≤ (Fixed.one.quo (Fixed.one - p.swapFee)).raw :=
    Fixed.scale_le_raw_quo hp.swapFee.complement_pos (Int.sub_le_self _ hp.swapFee.1)
  exact Fixed.le_raw_mul_left (Fixed.raw_quo_nonneg hbase (Int.le_of_lt hpos)) hraised

/-- **Prices are reciprocal up to rounding.**  Two assets that are worth anything have prices in each other,
and these multiply to at most one; what is missing are as many units of the last place as the two ratios of
their worths add up to, and one more.  A price that is answered is answered with the fee, too, and is not
lower with it. -/
theorem prices_reciprocal (hp : p.Valid) :
    (∀ q ∈ p.assets, ∀ b ∈ p.assets, 0 < q.worth.raw → 0 < b.worth.raw →
      ∃ price back, p.spotPrice q.denom b.denom = .ok price ∧ p.spotPrice b.denom q.denom = .ok back ∧
        (price.mul back).val ≤ 1 ∧
        1 - (1 + b.worth.val / q.worth.val + q.worth.val / b.worth.val) / 10 ^ 18 ≤
          (price.mul back).val) ∧
    ∀ quote base price, p.spotPrice quote base = .ok price →
      ∃ full, p.spotPriceWithFee quote base = .ok full ∧ price ≤ full := by
  refine ⟨fun q hq b hb hqpos hbpos => ?_, fun quote base price hprice => ?_⟩
  · have hqasset := hp.asset_eq_ok hq
    have hbasset := hp.asset_eq_ok hb
    refine ⟨b.worth.quo q.worth, q.worth.quo b.worth,
      (spotPrice_eq_ok hp).mpr ⟨q, b, hqasset, hbasset, hqpos, rfl⟩,
      (spotPrice_eq_ok hp).mpr ⟨b, q, hbasset, hqasset, hbpos, rfl⟩, ?_⟩
    have hbounds := Fixed.quo_mul_quo_bounds (Fixed.val_pos.mpr hbpos) (Fixed.val_pos.mpr hqpos)
    rwa [Fixed.ulp_eq, mul_one_div] at hbounds
  · exact ⟨_, (spotPriceWithFee_eq_ok hp).mpr ⟨price, hprice, rfl⟩, le_price_with_fee hp hprice⟩

/-- A pool of three coins that are worth one each and of seven hundred that are worth a half each. -/
def pricedPool : Pool where
  id := 1
  assets := [⟨"a", .ofInt 3, .one, 18⟩, ⟨"b", .ofInt 700, .ofInt 2, 18⟩]
  totalShares := .one
  swapFee := ⟨3000000000000000⟩
  exitFee := .zero
  window := none
  shareDecimals := 18

/-- Its prices are 350/3 and 3/350; in the one a unit of the other counts for more than a hundred units. -/
theorem pricedPool_reciprocal : pricedPool.Valid ∧
    pricedPool.spotPrice "a" "b" = .ok ⟨116666666666666666666⟩ ∧
    pricedPool.spotPrice "b" "a" = .ok ⟨8571428571428571⟩ ∧
    (1 - (1 + (Fixed.ofInt 350).val / (Fixed.ofInt 3).val + (Fixed.ofInt 3).val / (Fixed.ofInt 350).val) /
      10 ^ 18 ≤ (⟨999999999999999949⟩ : Fixed).val) ∧
    ∃ full, pricedPool.spotPriceWithFee "a" "b" = .ok full ∧ ⟨116666666666666666666⟩ ≤ full := by
  have hvalid : pricedPool.Valid := by decide
  have hprice : pricedPool.spotPrice "a" "b" = .ok ⟨116666666666666666666⟩ := by decide +kernel
  have hback : pricedPool.spotPrice "b" "a" = .ok ⟨8571428571428571⟩ := by decide +kernel
  obtain ⟨hpair, hfee⟩ := prices_reciprocal hvalid
  obtain ⟨price, back, hprice', hback', _, hproduct⟩ := hpair ⟨"a", .ofInt 3, .one, 18⟩ (by decide)
    ⟨"b", .ofInt 700, .ofInt 2, 18⟩ (by decide) (by decide) (by decide)
  obtain rfl := Except.ok.inj (hprice'.symm.trans hprice)
  obtain rfl := Except.ok.inj (hback'.symm.trans hback)
  exact ⟨hvalid, hprice, hback, hproduct, hfee _ _ _ hprice⟩

end Pool

end WeightedMarket
