/-
  What selling more brings.

  The ratio of the source's reserves, before a sale and after it, falls with what is sold and rises
  with the fee, exactly (`saleRatio_le_saleRatio`).  What is paid out follows a power of that ratio, and
  there the order can get lost: where the series takes one negative term more, or the ratio is doubled
  once more, a larger sale can bring less (`sellStep`).

  By how much is bounded by the precision of the powers: by two parts in 10⁸ of the target's reserve, and
  a unit.  Where the powers of the two ratios keep their order, more never brings less.
-/
import WeightedMarket.Proofs.Invariant
import WeightedMarket.Proofs.Power.Drift

namespace WeightedMarket.Asset

open Fixed

variable {source target : Asset} {amount amount' fee fee' power power' out out' : Fixed}

/-! ## Ratios -/

/-- More is left of a larger amount and of one with a lower fee. -/
theorem replenished_le_replenished (hamount : 0 ≤ amount.raw) (hle : amount ≤ amount')
    (hfee : fee.IsFee) (hlower : fee' ≤ fee) :
    (source.replenished amount fee).raw ≤ (source.replenished amount' fee').raw :=
  Int.add_le_add_left (hfee.kept_le_kept hamount hle hlower) _

/-- **Selling more, or for a lower fee**, lowers the ratio of the reserves. -/
theorem saleRatio_le_saleRatio (hsource : source.Valid) (hamount : 0 ≤ amount.raw)
    (hle : amount ≤ amount') (hlower : fee' ≤ fee) (h : source.Sale target amount fee power out) :
    (source.saleRatio amount' fee').raw ≤ (source.saleRatio amount fee).raw :=
  raw_quo_le_raw_quo_left hsource.balance_nonneg h.replenished_pos
    (replenished_le_replenished hamount hle h.isFee hlower)

/-! ## Amounts -/

namespace Sale

/-- Less than one unit of what the power releases is withheld. -/
theorem released_lt (h : source.Sale target amount fee power out) :
    target.balance.raw * (scale - power.raw) < (out.raw + unitOf target.decimals.toNat) * scale := by
  have hproduct := lt_raw_mul target.balance (one - power)
  have hunit := lt_truncateTo (target.balance.mul (one - power)) target.decimals.toNat
  rw [← h.out_eq] at hunit
  exact Int.lt_of_lt_of_le hproduct
    (Int.mul_le_mul_of_nonneg_right (Int.add_one_le_of_lt hunit) (Int.le_of_lt scale_pos))

/-- A smaller power pays at least as much. -/
theorem out_le_out (h : source.Sale target amount fee power out)
    (h' : source.Sale target amount' fee' power' out') (hnonneg : 0 ≤ target.balance.raw)
    (hpower : power'.raw ≤ power.raw) : out ≤ out' := by
  have hrest := (pos_of_raw_mul_pos hnonneg h.released_pos).2
  have hmore : (one - power).raw ≤ (one - power').raw := Int.sub_le_sub_left hpower _
  rw [le_def, h.out_eq, h'.out_eq]
  exact truncateTo_le_truncateTo
    (raw_mul_le_raw_mul hnonneg (Int.le_of_lt hrest) (Int.le_refl _) hmore) _

/-- A power that is larger by some units pays less by their part of the reserve, and less than a unit. -/
theorem out_sub_out_lt (h : source.Sale target amount fee power out)
    (h' : source.Sale target amount' fee' power' out') (hnonneg : 0 ≤ target.balance.raw)
    {units : Int} (hpower : power'.raw ≤ power.raw + units) :
    (out.raw - out'.raw) * scale <
      target.balance.raw * units + unitOf target.decimals.toNat * scale := by
  have hpaid := (h.power_mul_le hnonneg).2
  have hreleased := h'.released_lt
  have hscaled := Int.mul_le_mul_of_nonneg_left hpower hnonneg
  linarith

end Sale

/-- **Selling more, or for a lower fee, hardly ever brings less**: by less than two parts in 10⁸ of the
target's reserve and one of its units, and not at all if the powers of the two ratios keep their
order. -/
theorem amountOut_lt_of_le (hsource : source.Valid) (htarget : target.Valid) (hamount : 0 < amount.raw)
    (hle : amount ≤ amount') (hlower : fee' ≤ fee)
    (h : source.amountOut target amount fee = .ok out)
    (h' : source.amountOut target amount' fee' = .ok out') :
    (out.raw - out'.raw) * scale <
        target.balance.raw * (2 * 10 ^ 10) + unitOf target.decimals.toNat * scale ∧
      (Aligned (source.weight.quo target.weight) (source.saleRatio amount fee)
        (source.saleRatio amount' fee') → out ≤ out') := by
  obtain ⟨power, hsale⟩ := amountOut_eq_ok h
  obtain ⟨power', hsale'⟩ := amountOut_eq_ok h'
  have hratio := saleRatio_le_saleRatio hsource (Int.le_of_lt hamount) hle hlower hsale
  have hone := hsale.saleRatio_le_scale hsource.balance_nonneg (Int.le_of_lt hamount)
  constructor
  · refine hsale.out_sub_out_lt hsale' htarget.balance_nonneg ?_
    have hpower := raise_le_add hratio hone hsale.power_eq hsale'.power_eq
    rw [val_eq_mul_ulp, val_eq_mul_ulp, ulp_eq] at hpower
    have hunits : (power'.raw : ℝ) ≤ power.raw + 2 * 10 ^ 10 := by linarith
    exact_mod_cast hunits
  · intro haligned
    exact hsale.out_le_out hsale' htarget.balance_nonneg
      (raise_le_raise hratio hone haligned hsale.power_eq hsale'.power_eq)

/-! ## A larger sale that brings less -/

/-- The two sides of `sellStep`: a coin each, the target with twice the weight. -/
def stepSource : Asset := ⟨"a", .one, .ofInt 1, 18⟩

def stepTarget : Asset := ⟨"b", .one, .ofInt 2, 18⟩

theorem stepSource_valid : stepSource.Valid := by decide

theorem stepTarget_valid : stepTarget.Valid := by decide

/-- The last amount before the series of the doubled ratio, above one, takes a negative term more. -/
def sellStep : Fixed := ⟨901868406934075680⟩

/-- One raw unit beyond `sellStep`. -/
def sellBeyond : Fixed := ⟨901868406934075681⟩

theorem amountOut_sellStep :
    stepSource.amountOut stepTarget sellStep .zero = .ok ⟨274880187692738746⟩ := by
  decide +kernel

theorem amountOut_sellBeyond :
    stepSource.amountOut stepTarget sellBeyond .zero = .ok ⟨274880187419101853⟩ := by
  decide +kernel

/-- What `sellBeyond` brings less than `sellStep` is within the tolerance; and amounts whose ratios stay
above two thirds are aligned. -/
theorem sellBeyond_within :
    (274880187692738746 - 274880187419101853) * scale <
        stepTarget.balance.raw * (2 * 10 ^ 10) + unitOf 18 * scale ∧
      ∃ out out', stepSource.amountOut stepTarget ⟨100000000000000000⟩ .zero = .ok out ∧
        stepSource.amountOut stepTarget ⟨200000000000000000⟩ .zero = .ok out' ∧ out ≤ out' := by
  have htenth : stepSource.amountOut stepTarget ⟨100000000000000000⟩ .zero =
      .ok ⟨46537410688317390⟩ := by
    decide +kernel
  have hfifth : stepSource.amountOut stepTarget ⟨200000000000000000⟩ .zero =
      .ok ⟨87129069562911110⟩ := by
    decide +kernel
  have haligned : Aligned (stepSource.weight.quo stepTarget.weight)
      (stepSource.saleRatio ⟨100000000000000000⟩ .zero)
      (stepSource.saleRatio ⟨200000000000000000⟩ .zero) :=
    aligned_of_two_thirds_le (by decide +kernel) (by decide +kernel) (by decide +kernel)
  refine ⟨?_, _, _, htenth, hfifth, ?_⟩
  · exact (amountOut_lt_of_le stepSource_valid stepTarget_valid (by decide) (by decide)
      (Int.le_refl _) amountOut_sellStep amountOut_sellBeyond).1
  · exact (amountOut_lt_of_le stepSource_valid stepTarget_valid (by decide) (by decide)
      (Int.le_refl _) htenth hfifth).2 haligned

/-- **A larger sale that brings less**: of two valid assets, for the same fee. -/
theorem sellBeyond_brings_less : ∃ source target : Asset, source.Valid ∧ target.Valid ∧
    ∃ amount amount' out out' : Fixed, 0 < amount.raw ∧ amount ≤ amount' ∧
      source.amountOut target amount .zero = .ok out ∧
      source.amountOut target amount' .zero = .ok out' ∧ out' < out :=
  ⟨stepSource, stepTarget, stepSource_valid, stepTarget_valid, sellStep, sellBeyond, _, _, by decide,
    by decide, amountOut_sellStep, amountOut_sellBeyond, by decide⟩

end WeightedMarket.Asset
