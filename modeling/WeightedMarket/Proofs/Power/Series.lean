/-
  The computed series against the exact one.

  Every computed term is at most the exact one and short of it by less than two units, however far
  the recursion has come, since at a distance of at most a half errors die out faster than they are
  made (`exactTerm_lt_termAt`).  The signs are those of the exact terms.  So a computed sum is never
  less than the power below one (`power_below_le_sumAt`), and above one it is short by at most the
  rounding of its terms and the term after a negative last one (`power_above_le_sumAt`).  What it
  can be too large by is said by `sumAt_below_le` and `sumAt_above_le`.
-/
import WeightedMarket.Proofs.Power.Binomial
import WeightedMarket.Proofs.Power.Terms
import WeightedMarket.Proofs.Value

namespace WeightedMarket.Fixed

open Binomial Finset

variable {exponent x : Fixed}

/-! ## One term -/

/-- The distance of the exponent to a whole number is exact. -/
theorem val_gap (exponent : Fixed) (k : ℕ) : (exponent - ofInt k).abs.val = |exponent.val - k| := by
  rw [val_abs, val_sub, val_ofInt, Int.cast_natCast]

/-- The next term is not larger than the exact one. -/
theorem val_nextTerm_le {t : Fixed} (ht : 0 ≤ t.val) (k : ℕ) :
    (nextTerm exponent x k t).val ≤ t.val * (|exponent.val - k| / (k + 1) * |x.val|) := by
  have hgap : 0 ≤ (exponent - ofInt k).abs.val := by rw [val_gap]; exact abs_nonneg _
  have hx : 0 ≤ x.abs.val := by rw [val_abs]; exact abs_nonneg _
  have hcount : (ofInt (k + 1)).val = (k : ℝ) + 1 := by simp
  have hpos : (0 : ℝ) < k + 1 := Nat.cast_add_one_pos k
  have h1 := val_mul_le ht hgap
  have h2 := val_mul_le (val_mul_nonneg ht hgap) hx
  calc (nextTerm exponent x k t).val
      ≤ ((t.mul (exponent - ofInt k).abs).mul x.abs).val / (ofInt (k + 1)).val :=
        val_quo_le (val_mul_nonneg (val_mul_nonneg ht hgap) hx) (by rw [hcount]; exact hpos)
    _ ≤ t.val * (exponent - ofInt k).abs.val * x.abs.val / (k + 1) := by
        rw [hcount, div_le_div_iff_of_pos_right hpos]
        exact h2.trans (mul_le_mul_of_nonneg_right h1 hx)
    _ = t.val * (|exponent.val - k| / (k + 1) * |x.val|) := by
        rw [val_gap, val_abs]
        ring

/-- The next term is short of the exact one by the roundings of two products, which are divided with
them, and by the rest of the division. -/
theorem le_val_nextTerm (exponent x t : Fixed) (k : ℕ) :
    t.val * (|exponent.val - k| / (k + 1) * |x.val|) ≤
      (nextTerm exponent x k t).val + (|x.val| + 1 + k) / (k + 1) * ulp := by
  have hx : 0 ≤ x.abs.val := by rw [val_abs]; exact abs_nonneg _
  have hpos : (0 : ℝ) < k + 1 := Nat.cast_add_one_pos k
  have h1 := mul_le_mul_of_nonneg_right (lt_val_mul t (exponent - ofInt k).abs).le hx
  have h2 := lt_val_mul (t.mul (exponent - ofInt k).abs) x.abs
  have h3 := le_val_quo_ofInt ((t.mul (exponent - ofInt k).abs).mul x.abs) k
  have hproduct : t.val * (exponent - ofInt k).abs.val * x.abs.val ≤
      ((t.mul (exponent - ofInt k).abs).mul x.abs).val + (x.abs.val + 1) * ulp := by
    linarith
  calc t.val * (|exponent.val - k| / (k + 1) * |x.val|)
      = t.val * (exponent - ofInt k).abs.val * x.abs.val / (k + 1) := by
        rw [val_gap, val_abs]
        ring
    _ ≤ (((t.mul (exponent - ofInt k).abs).mul x.abs).val + (x.abs.val + 1) * ulp) / (k + 1) :=
        div_le_div_of_nonneg_right hproduct hpos.le
    _ = ((t.mul (exponent - ofInt k).abs).mul x.abs).val / (k + 1) +
          (|x.val| + 1) / (k + 1) * ulp := by
        rw [val_abs]
        ring
    _ ≤ (nextTerm exponent x k t).val + k / (k + 1) * ulp + (|x.val| + 1) / (k + 1) * ulp := by
        unfold nextTerm
        linarith
    _ = (nextTerm exponent x k t).val + (|x.val| + 1 + k) / (k + 1) * ulp := by ring

/-! ## All terms -/

theorem val_termAt_nonneg (exponent x : Fixed) (k : ℕ) : 0 ≤ (termAt exponent x k).val :=
  val_nonneg.mpr (termAt_nonneg exponent x k)

/-- A computed term is at most the exact term. -/
theorem val_termAt_le (exponent x : Fixed) (k : ℕ) :
    (termAt exponent x k).val ≤ exactTerm exponent.val |x.val| k := by
  induction k with
  | zero => rw [termAt, val_one, exactTerm_zero]
  | succ k ih =>
    rw [exactTerm_succ]
    refine (val_nextTerm_le (val_termAt_nonneg exponent x k) k).trans ?_
    refine mul_le_mul_of_nonneg_right ih ?_
    positivity

section

variable (hf0 : 0 < exponent.val) (hf1 : exponent.val < 1)

include hf0 hf1

/-- **A term is short by less than two units**: what the last term was short by counts for half of
that at most, and the own roundings for the rest. -/
theorem exactTerm_lt_termAt (hx : 2 * |x.val| ≤ 1) (k : ℕ) :
    exactTerm exponent.val |x.val| k < (termAt exponent x k).val + 2 * ulp := by
  have hulp := ulp_pos
  have hx0 := abs_nonneg x.val
  induction k with
  | zero =>
    rw [termAt, val_one, exactTerm_zero]
    linarith
  | succ k ih =>
    have hmade := le_val_nextTerm exponent x (termAt exponent x k) k
    rw [exactTerm_succ, termAt]
    rcases Nat.eq_zero_or_pos k with rfl | hk
    · -- the first term comes from one itself, which is exact
      simp only [termAt, val_one, exactTerm_zero, Nat.cast_zero, zero_add, add_zero, div_one] at hmade ⊢
      have hown : (|x.val| + 1) * ulp ≤ 3 / 2 * ulp := mul_le_mul_of_nonneg_right (by linarith) hulp.le
      linarith
    have hk1 : (1 : ℝ) ≤ k := by exact_mod_cast hk
    have hpos : (0 : ℝ) < k + 1 := by linarith
    have hfactor : |exponent.val - k| / (k + 1) * |x.val| ≤ k / (k + 1) * (1 / 2) := by
      refine mul_le_mul ?_ (by linarith) hx0 (by positivity)
      rw [div_le_div_iff_of_pos_right hpos, abs_le]
      constructor <;> linarith
    have hnonneg : 0 ≤ |exponent.val - k| / (k + 1) * |x.val| := by positivity
    have hlast := mul_le_mul_of_nonneg_right ih.le hnonneg
    have hcarried := mul_le_mul_of_nonneg_left hfactor (show 0 ≤ 2 * ulp by linarith)
    have hown : (|x.val| + 1 + k) / (k + 1) * ulp ≤ (3 / 2 + k) / (k + 1) * ulp :=
      mul_le_mul_of_nonneg_right (div_le_div_of_nonneg_right (by linarith) hpos.le) hulp.le
    have hboth : 2 * ulp * (k / (k + 1) * (1 / 2)) + (3 / 2 + k) / (k + 1) * ulp =
        2 * ulp - 1 / 2 / (k + 1) * ulp := by
      field_simp
      ring
    have hmargin : 0 < 1 / 2 / ((k : ℝ) + 1) * ulp := by positivity
    linarith

/-- Within a third of one, in the measure that the sums below count with. -/
theorem exactTerm_le_termAt (hx : 3 * |x.val| ≤ 1) (k : ℕ) :
    exactTerm exponent.val |x.val| k ≤ (termAt exponent x k).val + 7 / 2 * ulp := by
  have h := exactTerm_lt_termAt hf0 hf1 (x := x) (by linarith [abs_nonneg x.val]) k
  linarith [ulp_pos]

/-! ## Sums -/

/-- Below one the terms are taken away. -/
theorem val_sumAt_below (hx : x.raw < 0) (n : ℕ) :
    (sumAt exponent x n).val = 1 - ∑ k ∈ range n, (termAt exponent x (k + 1)).val := by
  induction n with
  | zero => simp [sumAt]
  | succ n ih =>
    rw [sumAt, minusAt_below (val_pos.mp hf0).le (val_lt_one.mp hf1) hx, if_pos rfl, val_sub, ih, sum_range_succ]
    ring

/-- Above one they alternate. -/
theorem val_sumAt_above (hx : 0 ≤ x.raw) (n : ℕ) :
    (sumAt exponent x n).val = 1 + ∑ k ∈ range n, (-1) ^ k * (termAt exponent x (k + 1)).val := by
  induction n with
  | zero => simp [sumAt]
  | succ n ih =>
    rw [sumAt, minusAt_above (val_pos.mp hf0).le (val_lt_one.mp hf1) hx, sum_range_succ]
    rcases Nat.even_or_odd n with heven | hodd
    · have hsign : ¬ n % 2 = 1 := by rw [Nat.even_iff.mp heven]; decide
      rw [if_neg (by simpa using hsign), val_add, ih, heven.neg_one_pow]
      ring
    · rw [if_pos (by simpa using Nat.odd_iff.mp hodd), val_sub, ih, hodd.neg_one_pow]
      ring

/-- Below one no sum exceeds one. -/
theorem val_sumAt_le_one (hx : x.raw < 0) (n : ℕ) : (sumAt exponent x n).val ≤ 1 := by
  rw [val_sumAt_below hf0 hf1 hx]
  have := sum_nonneg fun k (_ : k ∈ range n) => val_termAt_nonneg exponent x (k + 1)
  linarith

/-- **Below one a sum exceeds the power** by at least what the exact terms after its last one are
worth. -/
theorem surplus_le_sumAt (hx : x.raw < 0) (hx1 : |x.val| < 1) (n : ℕ) :
    exactTerm exponent.val |x.val| (n + 1) / (1 - factor exponent.val (n + 1) * |x.val|) ≤
      (sumAt exponent x n).val - (1 - |x.val|) ^ exponent.val := by
  have hexact := tail_le_surplus hf0 hf1 (abs_nonneg x.val) hx1 n
  have hterms := sum_le_sum fun k (_ : k ∈ range n) => val_termAt_le exponent x (k + 1)
  rw [val_sumAt_below hf0 hf1 hx]
  linarith

/-- Up to one every partial sum lies above the exact power, as terms are truncated and only so many are
taken away. -/
theorem power_below_le_sumAt (hx : x.raw ≤ 0) (hx1 : |x.val| < 1) (n : ℕ) :
    (1 - |x.val|) ^ exponent.val ≤ (sumAt exponent x n).val := by
  rcases Int.lt_or_eq_of_le hx with hx | hx
  swap
  · rw [sumAt_of_one hx, val_one, val, hx]
    simp
  have hexact := power_below_le hf0 hf1 (abs_nonneg x.val) hx1 n
  have hterms := sum_le_sum fun k (_ : k ∈ range n) => val_termAt_le exponent x (k + 1)
  rw [val_sumAt_below hf0 hf1 hx]
  linarith

/-- **Above one a sum is short of the power** by at most the rounding of its terms, and the next
exact term if its last one was negative. -/
theorem power_above_le_sumAt (hx : 0 ≤ x.raw) (hx3 : 3 * |x.val| ≤ 1) (n : ℕ) :
    (1 + |x.val|) ^ exponent.val ≤ (sumAt exponent x n).val + n * (7 / 2 * ulp) +
      if Even n then exactTerm exponent.val |x.val| (n + 1) else 0 := by
  have hulp := ulp_pos
  have hexact := power_above_le hf0 hf1 (abs_nonneg x.val) (by linarith [abs_nonneg x.val]) n
  -- rounded down, a negative term helps; a positive one costs its rounding
  have hterm : ∀ k ∈ range n, (-1) ^ k * exactTerm exponent.val |x.val| (k + 1) ≤
      (-1) ^ k * (termAt exponent x (k + 1)).val + 7 / 2 * ulp := by
    intro k _
    have hge := val_termAt_le exponent x (k + 1)
    have hle := exactTerm_le_termAt hf0 hf1 hx3 (k + 1)
    rcases neg_one_pow_eq_or ℝ k with hsign | hsign
    · rw [hsign]
      linarith
    · rw [hsign]
      linarith
  have hterms := sum_le_sum hterm
  rw [sum_add_distrib, sum_const, card_range, nsmul_eq_mul] at hterms
  rw [val_sumAt_above hf0 hf1 hx]
  linarith

/-! ### Too large -/

/-- **Below one a sum exceeds the power** by at most the rounding of its terms, and the geometric series
of the distance from the next exact term on. -/
theorem sumAt_below_le (hx : x.raw ≤ 0) (hx2 : 2 * |x.val| ≤ 1) (n : ℕ) :
    (sumAt exponent x n).val ≤ (1 - |x.val|) ^ exponent.val + n * (2 * ulp) +
      exactTerm exponent.val |x.val| (n + 1) / (1 - |x.val|) := by
  have hulp := ulp_pos
  have hx0 := abs_nonneg x.val
  rcases Int.lt_or_eq_of_le hx with hx | hx
  swap
  · have hterm := exactTerm_nonneg (f := exponent.val) hx0 (n + 1)
    have hrest := div_nonneg hterm (show 0 ≤ 1 - |x.val| by linarith)
    have hpower : (1 - |x.val|) ^ exponent.val = 1 := by
      rw [val_eq_zero hx, abs_zero, sub_zero, Real.one_rpow]
    rw [sumAt_of_one hx, val_one, hpower]
    have hcount : 0 ≤ (n : ℝ) * (2 * ulp) := by positivity
    linarith
  have hexact := surplus_le_tail hf0 hf1 hx0 (by linarith) n
  have hterms := sum_le_sum fun k (_ : k ∈ range n) => (exactTerm_lt_termAt hf0 hf1 hx2 (k + 1)).le
  rw [sum_add_distrib, sum_const, card_range, nsmul_eq_mul] at hterms
  rw [val_sumAt_below hf0 hf1 hx]
  linarith

/-- Above one it exceeds the power by at most the rounding of its negative terms, and the next exact
term if its last one was positive. -/
theorem sumAt_above_le (hx : 0 ≤ x.raw) (hx2 : 2 * |x.val| ≤ 1) (n : ℕ) :
    (sumAt exponent x n).val ≤ (1 + |x.val|) ^ exponent.val + (n / 2 : ℕ) * (2 * ulp) +
      if Even n then 0 else exactTerm exponent.val |x.val| (n + 1) := by
  have hexact := le_power_above hf0 hf1 (abs_nonneg x.val) (by linarith [abs_nonneg x.val]) n
  -- every second term is negative, and too large by its rounding
  have hterms : ∑ k ∈ range n, (-1) ^ k * (termAt exponent x (k + 1)).val ≤
      ∑ k ∈ range n, (-1) ^ k * exactTerm exponent.val |x.val| (k + 1) + (n / 2 : ℕ) * (2 * ulp) := by
    clear hexact
    induction n with
    | zero => simp
    | succ n ih =>
      have hle := val_termAt_le exponent x (n + 1)
      have hge := exactTerm_lt_termAt hf0 hf1 hx2 (n + 1)
      rw [sum_range_succ, sum_range_succ]
      rcases Nat.even_or_odd n with heven | hodd
      · have hcount : (n + 1) / 2 = n / 2 := by have := Nat.even_iff.mp heven; omega
        rw [heven.neg_one_pow, hcount]
        linarith
      · have hcount : (n + 1) / 2 = n / 2 + 1 := by have := Nat.odd_iff.mp hodd; omega
        rw [hodd.neg_one_pow, hcount]
        push_cast
        linarith
  rw [val_sumAt_above hf0 hf1 hx]
  linarith

end

end WeightedMarket.Fixed
