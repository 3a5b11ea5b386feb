/-
  No power is negative.

  The integer power multiplies what is not negative.  The series runs near one, where its sum covers
  its last term; both bases that it is asked for are near enough.
-/
import WeightedMarket.Proofs.Power.Reduction
import WeightedMarket.Proofs.Power.Squaring
import WeightedMarket.Proofs.Power.Terms
import WeightedMarket.Proofs.Quote

namespace WeightedMarket.Fixed

open Decision

/-- A whole power of a base that is not negative is not negative. -/
theorem power_nonneg {base : Fixed} (hbase : 0 ≤ base.raw) (n : Nat) : 0 ≤ (base.power n).raw := by
  apply power_induction (P := fun _ a => 0 ≤ a.raw) (Q := fun _ b => 0 ≤ b.raw)
  · intro _ _ a b ha hb
    exact raw_mul_nonneg ha hb
  · intro _ b hb
    exact raw_mul_nonneg hb hb
  · exact Int.le_of_lt scale_pos
  · exact hbase

/-- A reduced base is within a third of one. -/
theorem reduce_base_near {base : Fixed} (h : 0 < base.raw) :
    3 * |((reduce base).base - one).raw| ≤ scale := by
  obtain ⟨hle, hlt⟩ := reduce_base_bounds h
  have hone : (one : Fixed).raw = scale := rfl
  rw [raw_sub, hone]
  rcases abs_cases ((reduce base).base.raw - scale) with ⟨habs, _⟩ | ⟨habs, _⟩
  · rw [habs]
    linarith
  · rw [habs]
    linarith

/-- A fractional power of a positive base is not negative, however the series was cut. -/
theorem fractionalPower_nonneg {base exponent power : Fixed} (hbase : 0 < base.raw)
    (h0 : 0 ≤ exponent.raw) (h1 : exponent.raw ≤ scale)
    (h : base.fractionalPower exponent = .ok power) : 0 ≤ power.raw := by
  rw [fractionalPower, bind_eq_ok] at h
  obtain ⟨near, hnear, h⟩ := h
  have hx := reduce_base_near hbase
  have hnonneg := seriesPower_nonneg h0 h1 (two_mul_abs_le hx) hnear
  split at h
  · rw [Decision.pure_eq_ok] at h
    exact h ▸ hnonneg
  rw [bind_eq_ok] at h
  obtain ⟨halfPower, hhalf, h⟩ := h
  have hhalfNonneg : 0 ≤ halfPower.raw := seriesPower_nonneg h0 h1 (by decide) hhalf
  split at h
  · rw [Decision.pure_eq_ok] at h
    exact h ▸ raw_mul_nonneg hnonneg (power_nonneg hhalfNonneg _)
  · rw [bind_eq_ok] at h
    obtain ⟨twoPower, htwo, h⟩ := h
    rw [Decision.pure_eq_ok, ← divide_eq_quo htwo] at h
    have htwoNonneg : 0 ≤ (one.quo halfPower).raw := raw_quo_nonneg (Int.le_of_lt scale_pos) hhalfNonneg
    exact h ▸ raw_mul_nonneg hnonneg (power_nonneg htwoNonneg _)

/-- **No power is negative.** -/
theorem raise_nonneg {base exponent power : Fixed} (h : base.raise exponent = .ok power) :
    0 ≤ power.raw := by
  obtain ⟨hbase, _, ⟨_, rfl⟩ | ⟨_, f, hf, rfl⟩⟩ := raise_eq_ok h
  · exact power_nonneg (Int.le_of_lt hbase) _
  · have hfraction := fractionalPower_nonneg hbase exponent.fraction_nonneg
      (Int.le_of_lt exponent.fraction_lt) hf
    exact raw_mul_nonneg (power_nonneg (Int.le_of_lt hbase) _) hfraction

end WeightedMarket.Fixed
