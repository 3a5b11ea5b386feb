/-
  How far a sale is from the curve.

  Where the source weighs a whole number of times as much as the target, the power of a sale is an integer
  one, and what the sale would bring without any rounding is a rational number, `Asset.ideal`.

  Two roundings raise what is brought.  The ratio of the source's reserves is truncated by less than one
  unit, of which the `n`-th power makes less than `n`, and the products of that power lose `n - 1` units more at
  most; both lower the power and leave their part of the target's reserve to the seller
  (`Sale.power_between`).  The last rounding, to units of the target, goes the other way, and takes less
  than one of them (`Sale.out_between`).
-/
import WeightedMarket.Proofs.Power.Whole
import WeightedMarket.Proofs.Selling

namespace WeightedMarket

/-! ## Whole exponents -/

namespace Fixed

/-- The quotient of a multiple is the factor. -/
theorem quo_eq_ofInt {a b : Fixed} {n : Int} (hb : b.raw ≠ 0) (h : a.raw = n * b.raw) :
    a.quo b = ofInt n := by
  ext
  rw [quo, h, Int.mul_right_comm]
  exact Int.mul_tdiv_cancel _ hb

/-- A whole exponent asks for an integer power. -/
theorem raise_ofInt {base power : Fixed} {n : ℕ} (h : base.raise (ofInt n) = .ok power) :
    power = base.power n := by
  have hfraction : (ofInt n).fraction.raw = 0 := Int.mul_emod_left _ _
  have hwhole : (ofInt n).wholePart = n := by
    rw [wholePart, ofInt, Int.mul_ediv_cancel _ (by decide), Int.toNat_natCast]
  obtain ⟨-, -, ⟨-, hpower⟩ | ⟨hpos, -⟩⟩ := raise_eq_ok h
  · rw [hpower, hwhole]
  · exact absurd hfraction hpos.ne'

/-- One unit of a precision is that power of a tenth. -/
theorem unitOf_mul_ulp {d : ℕ} (hd : d ≤ places) : (unitOf d : ℝ) * ulp = 1 / 10 ^ d := by
  have hunit : (unitOf d : ℝ) = 10 ^ (places - d) := Int.cast_pow 10 _
  have hscale : (10 : ℝ) ^ 18 = 10 ^ (places - d) * 10 ^ d := by
    rw [← pow_add, Nat.sub_add_cancel hd, places]
  rw [hunit, ulp_eq, hscale]
  field_simp

end Fixed

/-- The powers of two numbers up to one are `n` times as far apart as the numbers at most. -/
theorem pow_le_pow_add {q r e : ℝ} (hq : 0 ≤ q) (hqr : q ≤ r) (hr : r ≤ 1) (hre : r ≤ q + e) (n : ℕ) :
    r ^ n ≤ q ^ n + n * e := by
  have hr0 : 0 ≤ r := hq.trans hqr
  have hmax : max |r| |q| ^ (n - 1) ≤ 1 := by
    rw [abs_of_nonneg hr0, abs_of_nonneg hq, max_eq_left hqr]
    exact pow_le_one₀ hr0 hr
  have hdifference : |r - q| ≤ e := by
    rw [abs_of_nonneg (sub_nonneg.mpr hqr)]
    linarith
  have hscaled : |r - q| * n ≤ e * n := mul_le_mul_of_nonneg_right hdifference n.cast_nonneg
  have hpowers : r ^ n - q ^ n ≤ |r - q| * n * max |r| |q| ^ (n - 1) :=
    (le_abs_self _).trans (abs_pow_sub_pow_le ..)
  have hfactor : |r - q| * n * max |r| |q| ^ (n - 1) ≤ |r - q| * n :=
    mul_le_of_le_one_right (by positivity) hmax
  linarith

namespace Asset

open Fixed

variable {source target : Asset} {amount fee power out : Fixed} {n : ℕ}

/-- The ratio of the source's reserves without and with an amount, not rounded. -/
noncomputable def exactRatio (source : Asset) (kept : Fixed) : ℝ :=
  source.balance.val / (source.balance.val + kept.val)

/-- What an amount, its fee taken off, would bring without any rounding, if the source weighs `n` times as
much as the target. -/
noncomputable def ideal (source target : Asset) (kept : Fixed) (n : ℕ) : ℝ :=
  target.balance.val * (1 - source.exactRatio kept ^ n)

namespace Sale

/-- The power of a sale is an integer one if the weights say so. -/
theorem power_eq_power (h : source.Sale target amount fee power out) (htarget : target.Valid)
    (hweights : source.weight.raw = n * target.weight.raw) :
    power = (source.saleRatio amount fee).power n := by
  have hpower := h.power_eq
  rw [quo_eq_ofInt htarget.weight_pos.ne' hweights] at hpower
  exact raise_ofInt hpower

/-- The computed ratio is the exact one, rounded down by less than one unit. -/
theorem saleRatio_between (h : source.Sale target amount fee power out)
    (hnonneg : 0 ≤ source.balance.raw) :
    (source.saleRatio amount fee).val ≤ source.exactRatio (amount.mul (one - fee)) ∧
      source.exactRatio (amount.mul (one - fee)) < (source.saleRatio amount fee).val + ulp := by
  have hpos := val_pos.mpr h.replenished_pos
  rw [exactRatio, ← val_add]
  exact ⟨val_quo_le (val_nonneg.mpr hnonneg) hpos, lt_val_quo source.balance hpos⟩

/-- A sale never raises the exact ratio above one. -/
theorem exactRatio_le_one (h : source.Sale target amount fee power out) (hamount : 0 ≤ amount.raw) :
    source.exactRatio (amount.mul (one - fee)) ≤ 1 := by
  rw [exactRatio, ← val_add]
  exact div_le_one_of_le₀ (val_le_val.mpr (h.replenished_bounds hamount).1)
    (val_pos.mpr h.replenished_pos).le

/-- **The power of a sale** with whole weights is too small by less than twice as many units. -/
theorem power_between (h : source.Sale target amount fee power out) (hsource : source.Valid)
    (htarget : target.Valid) (hamount : 0 ≤ amount.raw) (hn : 1 ≤ n)
    (hweights : source.weight.raw = n * target.weight.raw) :
    power.val ≤ source.exactRatio (amount.mul (one - fee)) ^ n ∧
      source.exactRatio (amount.mul (one - fee)) ^ n ≤ power.val + (2 * n - 1) * ulp := by
  obtain ⟨hlower, hupper⟩ := h.saleRatio_between hsource.balance_nonneg
  have hexact := h.exactRatio_le_one hamount
  have hratio0 : 0 ≤ (source.saleRatio amount fee).val := (val_pos.mpr (raise_eq_ok h.power_eq).1).le
  have hpower := power_isPower hratio0 (hlower.trans hexact) n
  rw [← h.power_eq_power htarget hweights] at hpower
  constructor
  · exact hpower.le.trans (pow_le_pow_left₀ hratio0 hlower n)
  · have hratio := pow_le_pow_add hratio0 hlower hexact hupper.le n
    have hproducts := hpower.ge
    rw [Nat.cast_pred hn] at hproducts
    linarith

/-- **What a sale brings** is what its power releases, rounded down by less than one of the target's
units. -/
theorem out_between (h : source.Sale target amount fee power out) (htarget : target.Valid) :
    target.balance.val * (1 - power.val) - 1 / 10 ^ target.decimals.toNat < out.val ∧
      out.val ≤ target.balance.val * (1 - power.val) := by
  have hreleased : (target.balance.raw : ℝ) * (scale - power.raw) <
      (out.raw + unitOf target.decimals.toNat) * scale := by
    exact_mod_cast h.released_lt
  have hkept : (target.balance.raw : ℝ) * power.raw ≤ (target.balance.raw - out.raw) * scale := by
    exact_mod_cast (h.power_mul_le htarget.balance_nonneg).2
  have hulp := ulp_pos
  have hscale : scale * ulp = 1 := mul_one_div_cancel scale_cast_pos.ne'
  have hdecimals : target.decimals.toNat ≤ places := by
    have := htarget.decimals.2
    rw [places]
    omega
  -- both are the raw inequalities, counted in units of one
  have hvalue : target.balance.val * (1 - power.val) =
      target.balance.raw * (scale - power.raw) * (ulp * ulp) := by
    rw [val_eq_mul_ulp, val_eq_mul_ulp, ← hscale]
    ring
  have hcancel (x : ℝ) : x * scale * (ulp * ulp) = x * ulp := by
    rw [mul_assoc, ← mul_assoc (scale : ℝ), hscale, one_mul]
  rw [← unitOf_mul_ulp hdecimals, hvalue, val_eq_mul_ulp out]
  constructor
  · have hscaled := mul_lt_mul_of_pos_right hreleased (mul_pos hulp hulp)
    rw [hcancel] at hscaled
    linarith
  · have hscaled := mul_le_mul_of_nonneg_right hkept (mul_pos hulp hulp).le
    rw [hcancel] at hscaled
    linarith [hcancel target.balance.raw]

end Sale

/-- **A sale with whole weights** brings what it would bring without any rounding, less one of the
target's units and more `2 n - 1` raw units for each coin of the target's reserve at most. -/
theorem amountOut_near_ideal (hsource : source.Valid) (htarget : target.Valid) (hn : 1 ≤ n)
    (hweights : source.weight.raw = n * target.weight.raw) (hamount : 0 < amount.raw)
    (h : source.amountOut target amount fee = .ok out) :
    ∃ kept, Fee.afterFee amount fee = .ok kept ∧
      source.ideal target kept n - 1 / 10 ^ target.decimals.toNat < out.val ∧
      out.val ≤ source.ideal target kept n + (2 * n - 1) * target.balance.val / 10 ^ 18 := by
  obtain ⟨power, hsale⟩ := amountOut_eq_ok h
  obtain ⟨hlarge, hsmall⟩ := hsale.power_between hsource htarget hamount.le hn hweights
  obtain ⟨hlower, hupper⟩ := hsale.out_between htarget
  have hbalance := val_nonneg.mpr htarget.balance_nonneg
  refine ⟨_, Fee.afterFee_eq_ok.mpr ⟨hsale.isFee, rfl⟩, ?_, ?_⟩
  · have hreleased := mul_le_mul_of_nonneg_left hlarge hbalance
    rw [ideal]
    linarith
  · have hreleased := mul_le_mul_of_nonneg_left hsmall hbalance
    rw [ulp_eq] at hreleased
    rw [ideal]
    linarith

/-! ## Twice the weight -/

/-- A source of twice the weight of `twiceTarget`, which only pays whole millionths. -/
def twiceSource : Asset := ⟨"a", .ofInt 100, .ofInt 2, 18⟩

def twiceTarget : Asset := ⟨"b", .ofInt 100, .ofInt 1, 6⟩

/-- Ten coins that are sold at a fee of three parts in a thousand bring 17.310274, and the curve gives
less than a millionth more. -/
theorem twiceSource_near_ideal :
    twiceSource.amountOut twiceTarget (.ofInt 10) ⟨3000000000000000⟩ = .ok ⟨17310274000000000000⟩ ∧
    ∃ kept, Fee.afterFee (.ofInt 10) ⟨3000000000000000⟩ = .ok kept ∧
      twiceSource.ideal twiceTarget kept 2 - 1 / 10 ^ 6 < (⟨17310274000000000000⟩ : Fixed).val ∧
      (⟨17310274000000000000⟩ : Fixed).val ≤
        twiceSource.ideal twiceTarget kept 2 + (2 * (2 : ℕ) - 1) * (Fixed.ofInt 100).val / 10 ^ 18 := by
  have hout : twiceSource.amountOut twiceTarget (.ofInt 10) ⟨3000000000000000⟩ =
      .ok ⟨17310274000000000000⟩ := by
    decide +kernel
  exact ⟨hout, amountOut_near_ideal (by decide) (by decide) (by decide) (by decide) (by decide) hout⟩

end Asset

end WeightedMarket
