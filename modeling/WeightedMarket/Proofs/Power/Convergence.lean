/-
  Every loop of a power ends.

  A power runs four loops, one after the other: it halves its base, doubles it, and sums two series.
  The first two are stated as rounds of a step under a test (`Ends`), the series with the terms that
  they add (`Converges`).

  The series of one half is divided by.  Its sum never falls below the power it stands for, which is
  at least one half, so the quotient exists and is at most two.
-/
import WeightedMarket.Proofs.Power.Answers
import WeightedMarket.Proofs.Power.Below

namespace WeightedMarket.Fixed

/-! ## The power of one half -/

variable {exponent total : Fixed} {n : Nat}

/-- **The sum for one half** lies between one half and one. -/
theorem Converges.half_bounds (h : Converges half exponent n total) (h0 : 0 ≤ exponent.raw)
    (h1 : exponent.raw < scale) : scale ≤ 2 * total.raw ∧ total.raw ≤ scale := by
  have hanswer := h.answers maxTerms (by decide)
  by_cases hzero : exponent.raw = 0
  · -- the power of an exponent of zero is one
    have htotal : total = one := by
      rw [seriesPower, if_pos hzero] at hanswer
      cases hanswer
      rfl
    subst htotal
    decide
  have hf0 : 0 < exponent.val := val_pos.mpr (by omega)
  have hf1 : exponent.val < 1 := val_lt_one.mpr h1
  obtain ⟨k, hnear⟩ := near_of_seriesPower hzero hanswer
  constructor
  · have hpower := hnear.power_le_of_le_one hf0 hf1 (val_pos.mpr (by decide)) (val_le_one.mpr (by decide))
    have hhalf : half.val ≤ half.val ^ exponent.val := by
      rw [val_half]
      exact Real.self_le_rpow_of_le_one (by norm_num) (by norm_num) hf1.le
    have hraw := val_le_val.mp (hhalf.trans hpower)
    simp only [half, scale] at hraw ⊢
    omega
  · exact val_le_one.mp (hnear.val_half_le_one hf0 hf1)

/-! ## Powers -/

/-- **A power always converges.**  Whatever the size of the positive base and of the exponent, both
loops of the reduction end; each of the two series adds twenty-seven terms at most, so that no limit
from there on changes its sum; the sum that is divided by is at least one half; and the power that is
answered is not negative. -/
theorem raise_converges (base exponent : Fixed) (hbase : 0 < base.raw) (hexponent : 0 ≤ exponent.raw) :
    (∃ halvings doublings v w, Ends TooLarge (· / 2) halvings base.raw v ∧
      Ends TooSmall (2 * ·) doublings v w ∧ reduce base = ⟨⟨w⟩, halvings - doublings⟩) ∧
    (∃ n near, Converges (reduce base).base exponent.fraction n near) ∧
    (∃ n halfPower, Converges half exponent.fraction n halfPower ∧
      scale ≤ 2 * halfPower.raw ∧ halfPower.raw ≤ scale ∧
      one.divide halfPower = .ok (one.quo halfPower)) ∧
    ∃ power, base.raise exponent = .ok power ∧ 0 ≤ power.raw := by
  have h0 := exponent.fraction_nonneg
  have h1 := exponent.fraction_lt
  refine ⟨reduce_ends hbase, ?_, ?_, ?_⟩
  · obtain ⟨n, near, hnear, _⟩ :=
      exists_converges h0 h1.le (two_mul_abs_le (reduce_base_near hbase))
    exact ⟨n, near, hnear⟩
  · have hhalfNear : 2 * |(half - one).raw| ≤ scale := by decide
    obtain ⟨n, halfPower, hhalf, hpos⟩ := exists_converges h0 h1.le hhalfNear
    obtain ⟨hge, hle⟩ := hhalf.half_bounds h0 h1
    exact ⟨n, halfPower, hhalf, hge, hle, divide_eq_ok hpos.ne'⟩
  · obtain ⟨power, hpower⟩ := exists_raise hbase hexponent
    exact ⟨power, hpower, raise_nonneg hpower⟩

/-- The smallest base converges for the smallest exponent that is not whole. -/
theorem raise_converges_of_smallest : ∃ power, raise ⟨1⟩ ⟨1⟩ = .ok power ∧ 0 ≤ power.raw :=
  (raise_converges ⟨1⟩ ⟨1⟩ (by decide) (by decide)).2.2.2

end WeightedMarket.Fixed
