/-
  How much a series is too large.

  The series stops at a term below the precision of 10⁻⁸, or where the next one has vanished; in
  either case the next exact term is at most the precision times the distance from one, but for a
  rounding (`StopsAt.exactTerm_succ_le`).  Below one that bounds the whole tail, and above one it bounds what
  is left of an alternating series.

  A reduced base is so at most 0.51 · 10⁻⁸ too large, and the power of one half 1.01 · 10⁻⁸
  (`Near.le_power_add`, `Near.half_le`).  Above one the excess also vanishes with the distance
  (`Near.le_of_one_le`): small changes are paid for by small errors.
-/
import WeightedMarket.Proofs.Power.Below
import WeightedMarket.Proofs.Power.Order

namespace WeightedMarket.Fixed

open Binomial

variable {exponent x base total : Fixed} {n : ℕ}

section

variable (hf0 : 0 < exponent.val) (hf1 : exponent.val < 1)

include hf0 hf1

/-! ## The next term -/

/-- Where a sum of some terms has stopped, the next one is at most the precision times the distance. -/
theorem StopsAt.exactTerm_succ_le (h : StopsAt exponent x powerPrecision n) (hx : 2 * |x.val| ≤ 1)
    (hn : n ≠ 0) : exactTerm exponent.val |x.val| (n + 1) ≤ (1 / 10 ^ 8 + 2 * ulp) * |x.val| := by
  have hx0 := abs_nonneg x.val
  have hulp := ulp_eq
  rcases Int.lt_or_le (termAt exponent x n).raw powerPrecision.raw with hsmall | hlarge
  · -- it has stopped at a small term
    have hterm := exactTerm_lt_termAt hf0 hf1 hx n
    have hless := val_lt_val.mpr hsmall
    rw [val_powerPrecision] at hless
    calc exactTerm exponent.val |x.val| (n + 1)
        ≤ exactTerm exponent.val |x.val| n * |x.val| := Binomial.exactTerm_succ_le hf0 hf1 hx0 n
      _ ≤ (1 / 10 ^ 8 + 2 * ulp) * |x.val| := mul_le_mul_of_nonneg_right (by linarith) hx0
  · -- the next term has vanished, and the last one shows that the distance is no dust
    have hzero := h.stops.resolve_left (Int.not_lt.mpr hlarge)
    have hterm := exactTerm_lt_termAt hf0 hf1 hx (n + 1)
    rw [val_eq_zero hzero] at hterm
    obtain ⟨k, rfl⟩ := Nat.exists_eq_succ_of_ne_zero hn
    have hlast := (val_le_val.mpr hlarge).trans (val_termAt_le exponent x (k + 1))
    have hfar := hlast.trans (exactTerm_succ_le_self hf0 hf1 hx0 (by linarith) k)
    rw [val_powerPrecision] at hfar
    rw [hulp] at hterm ⊢
    linarith

/-- The same of any sum, with a rounding for the sum of no terms. -/
theorem StopsAt.exactTerm_succ_le_add (h : StopsAt exponent x powerPrecision n)
    (hx : 2 * |x.val| ≤ 1) :
    exactTerm exponent.val |x.val| (n + 1) ≤ 1 / 10 ^ 8 * |x.val| + 2 * ulp := by
  have hulp := ulp_pos
  have hx0 := abs_nonneg x.val
  rcases Nat.eq_zero_or_pos n with rfl | hn
  · -- one itself is not small, so there was no first term
    have hzero : (termAt exponent x (0 + 1)).raw = 0 :=
      h.stops.resolve_left (show ¬ one < powerPrecision by decide)
    have hterm := exactTerm_lt_termAt hf0 hf1 hx (0 + 1)
    rw [val_eq_zero hzero] at hterm
    linarith
  · have hnext := h.exactTerm_succ_le hf0 hf1 hx (by omega)
    have hrounding : 2 * ulp * |x.val| ≤ 2 * ulp := mul_le_of_le_one_right (by linarith) (by linarith)
    linarith

/-! ## Up to one -/

theorem Near.le_of_le_one (h : Near base exponent n total) (hle : base.val ≤ 1)
    (hx : 2 * |(base - one).raw| ≤ scale) :
    total.val ≤ base.val ^ exponent.val + n * (2 * ulp) +
      (1 / 10 ^ 8 * (1 - base.val) + 2 * ulp) / base.val := by
  have hx2 := mul_abs_val_le_one hx
  have hsum := sumAt_below_le hf0 hf1 (raw_sub_one_nonpos hle) hx2 n
  have hnext := h.stops.exactTerm_succ_le_add hf0 hf1 hx2
  push_cast at hx2
  rw [abs_val_sub_one_of_le hle] at hx2 hsum hnext
  rw [← h.total_eq, sub_sub_cancel] at hsum
  have htail := div_le_div_of_nonneg_right hnext (show 0 ≤ base.val by linarith)
  linarith

/-- **The series of one half** is too large by little more than its precision. -/
theorem Near.half_le (h : Near half exponent n total) :
    total.val ≤ (1 / 2) ^ exponent.val + 101 / 10 ^ 10 := by
  have hulp := ulp_eq
  have hsum := h.le_of_le_one hf0 hf1 (by rw [val_half]; norm_num) (by decide)
  have hcount : (n : ℝ) ≤ 27 := by
    exact_mod_cast h.stops.le_twentySeven (val_pos.mp hf0).le (val_lt_one.mp hf1).le (by decide)
  rw [val_half, hulp] at hsum
  linarith

/-! ## Above one -/

/-- The rounding of the negative terms is small against the first term, which has reached the
precision if there is a second. -/
theorem Near.rounding_le (h : Near base exponent n total) (hx : 3 * |(base - one).raw| ≤ scale) :
    ((n / 2 : ℕ) : ℝ) * (2 * ulp) ≤ 16 / 10 ^ 10 * |(base - one).val| := by
  rcases Nat.lt_or_ge n 2 with hone | htwo
  · rw [show n / 2 = 0 by omega, Nat.cast_zero, zero_mul]
    positivity
  · have hcount : ((n / 2 : ℕ) : ℝ) ≤ 8 := by
      have := h.stops.le_seventeen (val_pos.mp hf0).le (val_lt_one.mp hf1).le hx
      exact_mod_cast (show n / 2 ≤ 8 by omega)
    have hx3 := mul_abs_val_le_one hx
    push_cast at hx3
    have hlarge := val_le_val.mpr (le_def.mp (h.stops.goesOn 1 (by omega)))
    have hfirst := hlarge.trans (val_termAt_le exponent (base - one) 1)
    have hfar := hfirst.trans
      (exactTerm_succ_le_self hf0 hf1 (abs_nonneg _) (by linarith [abs_nonneg (base - one).val]) 0)
    rw [val_powerPrecision] at hfar
    rw [ulp_eq]
    linarith

/-- **Above one a series is too large** by little more than its precision times the distance. -/
theorem Near.le_of_one_le (h : Near base exponent n total) (hge : 1 ≤ base.val)
    (hx : 3 * |(base - one).raw| ≤ scale) :
    total.val ≤ base.val ^ exponent.val + 12 / 10 ^ 9 * (base.val - 1) := by
  have hulp := ulp_eq
  have hx3 := mul_abs_val_le_one hx
  have hx2 : 2 * |(base - one).val| ≤ 1 := by
    push_cast at hx3
    linarith [abs_nonneg (base - one).val]
  have hsum := sumAt_above_le hf0 hf1 (raw_sub_one_nonneg hge) hx2 n
  rw [← h.total_eq] at hsum
  rcases Nat.eq_zero_or_pos n with rfl | hpos
  · -- nothing was added to one
    rw [abs_val_sub_one_of_ge hge, add_sub_cancel] at hsum
    simp only [Nat.zero_div, Nat.cast_zero, zero_mul, add_zero, Even.zero, if_true] at hsum
    linarith
  have hnext := h.stops.exactTerm_succ_le hf0 hf1 hx2 (by omega)
  have hif : (if Even n then 0 else exactTerm exponent.val |(base - one).val| (n + 1)) ≤
      (1 / 10 ^ 8 + 2 * ulp) * |(base - one).val| := by
    split
    · exact mul_nonneg (by rw [hulp]; norm_num) (abs_nonneg _)
    · exact hnext
  have hrounding := h.rounding_le hf0 hf1 hx
  rw [abs_val_sub_one_of_ge hge] at hsum hif hrounding
  rw [add_sub_cancel] at hsum
  rw [hulp] at hif
  linarith

/-- Above one a series is too small by a third of its precision at most. -/
theorem Near.power_le_of_one_le (h : Near base exponent n total) (hge : 1 ≤ base.val)
    (hx : 3 * |(base - one).raw| ≤ scale) :
    base.val ^ exponent.val ≤ total.val + 34 / 10 ^ 10 := by
  have hulp := ulp_eq
  have hx3 := mul_abs_val_le_one hx
  have hx0 := abs_nonneg (base - one).val
  push_cast at hx3
  have hsum := power_above_le_sumAt hf0 hf1 (raw_sub_one_nonneg hge) hx3 n
  have hnext := h.stops.exactTerm_succ_le_add hf0 hf1 (by linarith)
  have hcount : (n : ℝ) ≤ 17 := by
    exact_mod_cast h.stops.le_seventeen (val_pos.mp hf0).le (val_lt_one.mp hf1).le hx
  have hif : (if Even n then exactTerm exponent.val |(base - one).val| (n + 1) else 0) ≤
      1 / 10 ^ 8 * (1 / 3) + 2 * ulp := by
    split
    · linarith
    · rw [hulp]
      norm_num
  rw [← h.total_eq, abs_val_sub_one_of_ge hge, add_sub_cancel] at hsum
  rw [abs_val_sub_one_of_ge hge] at hif
  rw [hulp] at hsum hif
  linarith

theorem Near.one_le_of_one_le (h : Near base exponent n total) (hge : 1 ≤ base.val)
    (hx : 3 * |(base - one).raw| ≤ scale) : 1 ≤ total.val := by
  have hx0 := raw_sub_one_nonneg hge
  have hx1 : (base - one).raw ≤ scale := by
    rw [abs_of_nonneg hx0] at hx
    omega
  rw [one_le_val, h.total_eq]
  exact scale_le_sumAt (val_pos.mp hf0).le (val_lt_one.mp hf1) hx0 hx1 n

/-! ## Reduced bases -/

/-- **The series of a reduced base** is too large by little more than half of its precision. -/
theorem Near.le_power_add (h : Near base exponent n total) (hx : 3 * |(base - one).raw| ≤ scale) :
    total.val ≤ base.val ^ exponent.val + 51 / 10 ^ 10 := by
  have hulp := ulp_eq
  have hx3 := mul_abs_val_le_one hx
  push_cast at hx3
  rcases le_total base.val 1 with hle | hge
  · have hsum := h.le_of_le_one hf0 hf1 hle (two_mul_abs_le hx)
    have hcount : (n : ℝ) ≤ 17 := by
      exact_mod_cast h.stops.le_seventeen (val_pos.mp hf0).le (val_lt_one.mp hf1).le hx
    rw [abs_val_sub_one_of_le hle] at hx3
    have htail : (1 / 10 ^ 8 * (1 - base.val) + 2 * ulp) / base.val ≤ 1 / 10 ^ 8 / 2 + 3 * ulp := by
      rw [div_le_iff₀ (by linarith), hulp]
      linarith
    rw [hulp] at hsum htail
    linarith
  · have hsum := h.le_of_one_le hf0 hf1 hge hx
    rw [abs_val_sub_one_of_ge hge] at hx3
    linarith

end

end WeightedMarket.Fixed
