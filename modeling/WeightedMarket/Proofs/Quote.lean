/-
  What the quotes of a trade have computed.

  Selling and buying both ask the curve for the other side's change.  The structure `Asset.Sale`
  holds what a sale that was quoted has checked and computed; its one real quantity is the power of
  the source's relative change, from which the amount paid out is truncated.
-/
import WeightedMarket.Pool.Trade
import WeightedMarket.Proofs.Decision
import WeightedMarket.Proofs.Rounding

namespace WeightedMarket

open Decision

/-! ## Powers -/

namespace Fixed

/-- The integer part of an exponent. -/
def wholePart (exponent : Fixed) : Nat := (exponent.raw / scale).toNat

/-- What an exponent exceeds its integer part by. -/
def fraction (exponent : Fixed) : Fixed := ⟨exponent.raw % scale⟩

/-- The fraction of an exponent is not negative, as the whole part is rounded down. -/
theorem fraction_nonneg (exponent : Fixed) : 0 ≤ exponent.fraction.raw :=
  Int.emod_nonneg _ (by decide)

/-- The fraction of an exponent is less than one. -/
theorem fraction_lt (exponent : Fixed) : exponent.fraction.raw < scale :=
  Int.emod_lt_of_pos _ (by decide)

/-- A power is the integer power, times that of the fraction if there is one. -/
theorem raise_eq_ok {base exponent power : Fixed} (h : base.raise exponent = .ok power) :
    0 < base.raw ∧ 0 ≤ exponent.raw ∧
      (exponent.fraction.raw = 0 ∧ power = base.power exponent.wholePart ∨
        0 < exponent.fraction.raw ∧ ∃ f, base.fractionalPower exponent.fraction = .ok f ∧
          power = (base.power exponent.wholePart).mul f) := by
  rw [raise, bind_eq_ok] at h
  obtain ⟨_, hbase, h⟩ := h
  rw [bind_eq_ok] at h
  obtain ⟨_, hexponent, h⟩ := h
  refine ⟨by simpa using require_eq_ok.mp hbase, by simpa using require_eq_ok.mp hexponent, ?_⟩
  have hnonneg := exponent.fraction_nonneg
  by_cases hzero : exponent.fraction.raw = 0
  · left
    simp only [fraction] at hzero
    simp only [hzero, if_true, pure_eq_ok] at h
    exact ⟨hzero, h.symm⟩
  · right
    have hpos : 0 < exponent.fraction.raw := by omega
    simp only [fraction] at hzero
    simp only [hzero, if_false, bind_eq_ok, pure_eq_ok] at h
    obtain ⟨f, hf, h⟩ := h
    exact ⟨hpos, f, hf, h.symm⟩

end Fixed

/-! ## Fees -/

namespace Fixed.IsFee

variable {amount amount' fee fee' : Fixed}

theorem complement_pos (h : fee.IsFee) : 0 < (one - fee).raw := Int.sub_pos_of_lt h.2

/-- A fee only lowers an amount, and not below zero. -/
theorem kept_bounds (h : fee.IsFee) (hamount : 0 ≤ amount.raw) :
    0 ≤ (amount.mul (one - fee)).raw ∧ (amount.mul (one - fee)).raw ≤ amount.raw := by
  have hone : (one - fee).raw ≤ scale := Int.sub_le_self _ h.1
  exact ⟨raw_mul_nonneg hamount (Int.le_of_lt h.complement_pos), raw_mul_le_left hamount hone⟩

/-- More is kept of a larger amount and at a lower fee. -/
theorem kept_le_kept (h : fee.IsFee) (hamount : 0 ≤ amount.raw) (hle : amount ≤ amount')
    (hlower : fee' ≤ fee) : (amount.mul (one - fee)).raw ≤ (amount'.mul (one - fee')).raw := by
  have hrest : (one - fee).raw ≤ (one - fee').raw := Int.sub_le_sub_left hlower _
  exact raw_mul_le_raw_mul hamount (Int.le_of_lt h.complement_pos) hle hrest

end Fixed.IsFee

namespace Fee

/-- What is left of one after a fee is answered for fees alone. -/
theorem complement_eq_ok {fee rest : Fixed} :
    complement fee = .ok rest ↔ fee.IsFee ∧ rest = Fixed.one - fee := by
  constructor
  · intro h
    obtain ⟨_, hfee, h⟩ := bind_eq_ok.mp h
    exact ⟨by simpa using require_eq_ok.mp hfee, (pure_eq_ok.mp h).symm⟩
  · rintro ⟨hfee, rfl⟩
    exact bind_eq_ok.mpr ⟨(), require_eq_ok.mpr (decide_eq_true hfee), rfl⟩

/-- A fee leaves the kept part of an amount, if it is a proportion below one. -/
theorem afterFee_eq_ok {amount fee kept : Fixed} :
    afterFee amount fee = .ok kept ↔ fee.IsFee ∧ kept = amount.mul (Fixed.one - fee) := by
  constructor
  · intro h
    obtain ⟨rest, hrest, h⟩ := bind_eq_ok.mp h
    obtain ⟨hfee, rfl⟩ := complement_eq_ok.mp hrest
    exact ⟨hfee, (pure_eq_ok.mp h).symm⟩
  · rintro ⟨hfee, rfl⟩
    exact bind_eq_ok.mpr ⟨_, complement_eq_ok.mpr ⟨hfee, rfl⟩, rfl⟩

/-- An amount is grossed up by a fee that is a proportion below one. -/
theorem grossUp_eq_ok {amount fee paid : Fixed} :
    grossUp amount fee = .ok paid ↔ fee.IsFee ∧ paid = amount.quo (Fixed.one - fee) := by
  constructor
  · intro h
    obtain ⟨rest, hrest, h⟩ := bind_eq_ok.mp h
    obtain ⟨hfee, rfl⟩ := complement_eq_ok.mp hrest
    exact ⟨hfee, (Fixed.divide_eq_quo h).symm⟩
  · rintro ⟨hfee, rfl⟩
    exact bind_eq_ok.mpr ⟨_, complement_eq_ok.mpr ⟨hfee, rfl⟩, Fixed.divide_eq_ok hfee.complement_pos.ne'⟩

end Fee

/-! ## The curve -/

namespace Curve

/-- The curve was followed by a power of the ratio of the balances. -/
theorem delta_eq_ok {before after fixedWeight other otherWeight d : Fixed}
    (h : delta before after fixedWeight other otherWeight = .ok d) :
    0 < after.raw ∧ ∃ power, (before.quo after).raise (fixedWeight.quo otherWeight) = .ok power ∧
      d = other.mul (Fixed.one - power) := by
  rw [delta, bind_eq_ok] at h
  obtain ⟨_, hafter, h⟩ := h
  rw [bind_eq_ok] at h
  obtain ⟨_, _, h⟩ := h
  rw [bind_eq_ok] at h
  obtain ⟨exponent, hexponent, h⟩ := h
  rw [bind_eq_ok] at h
  obtain ⟨ratio, hratio, h⟩ := h
  rw [bind_eq_ok] at h
  obtain ⟨power, hpower, h⟩ := h
  rw [pure_eq_ok] at h
  rw [← Fixed.divide_eq_quo hexponent, ← Fixed.divide_eq_quo hratio] at hpower
  exact ⟨by simpa using require_eq_ok.mp hafter, power, hpower, h.symm⟩

end Curve

/-! ## Sales -/

namespace Asset

/-- What the reserve of an asset is counted as when an amount is sold to it. -/
def replenished (source : Asset) (amount fee : Fixed) : Fixed :=
  source.balance + amount.mul (Fixed.one - fee)

/-- What a quoted sale has checked and computed. -/
structure Sale (source target : Asset) (amount fee power out : Fixed) : Prop where
  isFee : fee.IsFee
  replenished_pos : 0 < (source.replenished amount fee).raw
  power_eq : (source.balance.quo (source.replenished amount fee)).raise
    (source.weight.quo target.weight) = .ok power
  out_eq : out = (target.balance.mul (Fixed.one - power)).truncateTo target.decimals.toNat
  out_pos : 0 < out.raw

/-- A sale that was quoted has the parts that its formula has. -/
theorem amountOut_eq_ok {source target : Asset} {amount fee out : Fixed}
    (h : source.amountOut target amount fee = .ok out) :
    ∃ power, source.Sale target amount fee power out := by
  rw [amountOut, bind_eq_ok] at h
  obtain ⟨kept, hkept, h⟩ := h
  rw [bind_eq_ok] at h
  obtain ⟨d, hd, h⟩ := h
  rw [bind_eq_ok] at h
  obtain ⟨out', hout, h⟩ := h
  rw [bind_eq_ok] at h
  obtain ⟨_, hpos, h⟩ := h
  rw [pure_eq_ok] at h
  subst h
  obtain ⟨hfee, rfl⟩ := Fee.afterFee_eq_ok.mp hkept
  obtain ⟨hafter, power, hpower, rfl⟩ := Curve.delta_eq_ok hd
  exact ⟨power,
    { isFee := hfee
      replenished_pos := hafter
      power_eq := hpower
      out_eq := Fixed.truncate_eq_truncateTo hout
      out_pos := by simpa using require_eq_ok.mp hpos }⟩

end Asset

end WeightedMarket
