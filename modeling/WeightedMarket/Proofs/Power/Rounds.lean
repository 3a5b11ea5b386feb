/-
  What the rounds of the series add.

  Within a half of one the sixtieth term has vanished, so that the loop ends with any precision
  (`exists_rounds`).  A round makes a term of the last one, which is short of the exact one by less than
  two units, and adds it or takes it away with the sign of the exact one (`val_sumAt_succ`,
  `rounds_faithful`).
-/
import Mathlib.Data.Sign.Basic
import WeightedMarket.Proofs.Power.Series

namespace WeightedMarket.Fixed

open Binomial

variable {exponent x : Fixed}

/-! ## The end of the loop -/

theorem termAt_sixty (h0 : 0 ≤ exponent.raw) (h1 : exponent.raw ≤ scale) (hx : 2 * |x.raw| ≤ scale) :
    (termAt exponent x 60).raw = 0 := by
  have hsmall := pow_mul_termAt_le h0 h1 (by decide) hx 60
  have hnonneg := termAt_nonneg exponent x 60
  simp only [scale] at hsmall
  omega

/-- **The loop ends** with every precision, after less than sixty rounds, and no limit from there on
changes its sum. -/
theorem exists_rounds {base : Fixed} (h0 : 0 < exponent.raw) (h1 : exponent.raw ≤ scale)
    (hx : 2 * |(base - one).raw| ≤ scale) (precision : Fixed) :
    ∃ n < 60, Rounds exponent (base - one) precision n ∧ ¬ GoesOn exponent (base - one) precision n ∧
      ∀ limit : Int, n < limit →
        base.seriesPower exponent precision limit = .ok (sumAt exponent (base - one) n) := by
  have hnot : ¬ Rounds exponent (base - one) precision 60 := by
    intro h
    exact (h 59 (by omega)).next_ne_zero (termAt_sixty h0.le h1 hx)
  obtain ⟨n, hn, hrounds, hlast⟩ := exists_last_round hnot
  refine ⟨n, hn, hrounds, hlast, ?_⟩
  intro limit hlimit
  rw [seriesPower, if_neg h0.ne', hrounds.answers hlast (by omega)]

/-! ## What a round adds -/

section

variable (hf0 : 0 < exponent.val) (hf1 : exponent.val < 1)

include hf0 hf1

/-- A term is at most the one before it times the distance. -/
theorem val_termAt_succ_le (x : Fixed) (k : ℕ) :
    (termAt exponent x (k + 1)).val ≤ (termAt exponent x k).val * |x.val| := by
  have hterm := val_termAt_nonneg exponent x k
  have hfactor := abs_sub_div_le_one hf0 hf1 k
  rw [termAt]
  exact (val_nextTerm_le hterm k).trans
    (mul_le_mul_of_nonneg_left (mul_le_of_le_one_left (abs_nonneg x.val) hfactor) hterm)

/-- **A term counts with the sign of the exact one.** -/
theorem val_sumAt_succ (x : Fixed) (k : ℕ) :
    (sumAt exponent x (k + 1)).val = (sumAt exponent x k).val +
      SignType.sign (Ring.choose exponent.val (k + 1) * x.val ^ (k + 1)) *
        (termAt exponent x (k + 1)).val := by
  have h0 := (val_pos.mp hf0).le
  have h1 := val_lt_one.mp hf1
  rcases lt_trichotomy x.raw 0 with hneg | hzero | hpos
  · -- below one all terms are taken away
    have hterm := exactTerm_pos hf0 hf1 (neg_pos.mpr (val_neg_iff.mpr hneg)) (k + 1)
    have hsign := choose_mul_neg_pow hf0 hf1 (-x.val) k
    rw [neg_neg] at hsign
    rw [hsign, sign_neg (neg_neg_of_pos hterm), sumAt, minusAt_below h0 h1 hneg, if_pos rfl, val_sub,
      SignType.coe_neg_one]
    ring
  · -- at one itself there is nothing to count
    rw [sumAt_of_one hzero, sumAt_of_one hzero, val_eq_zero (termAt_succ_of_one exponent hzero k), mul_zero,
      add_zero]
  · -- above one they alternate
    have hterm := exactTerm_pos hf0 hf1 (val_pos.mpr hpos) (k + 1)
    rw [choose_mul_pow hf0 hf1, sumAt, minusAt_above h0 h1 hpos.le]
    rcases Nat.even_or_odd k with heven | hodd
    · have hplus : ¬ k % 2 = 1 := by rw [Nat.even_iff.mp heven]; decide
      rw [heven.neg_one_pow, one_mul, sign_pos hterm, decide_eq_false hplus, if_neg Bool.false_ne_true,
        val_add, SignType.coe_one, one_mul]
    · rw [hodd.neg_one_pow, neg_one_mul, sign_neg (neg_neg_of_pos hterm),
        decide_eq_true (Nat.odd_iff.mp hodd), if_pos rfl, val_sub, SignType.coe_neg_one]
      ring

end

/-- **The rounds of the series follow the exact terms.**  For a base within a half of one and a fraction
the loop ends, and answers the sum that its rounds have come to.  The `k`-th term is short of the exact
one by less than two units and not above it, it is at most the one before it times the distance from one,
and what it does to the sum has the sign of the exact one. -/
theorem rounds_faithful (base exponent : Fixed) (hlow : 1 / 2 ≤ base.val) (hhigh : base.val ≤ 3 / 2)
    (hf0 : 0 < exponent.val) (hf1 : exponent.val < 1) :
    (∀ precision : Fixed, ∃ n < 60,
      Rounds exponent (base - one) precision n ∧ ¬ GoesOn exponent (base - one) precision n ∧
      ∀ limit : Int, n < limit →
        base.seriesPower exponent precision limit = .ok (sumAt exponent (base - one) n)) ∧
    ∀ k : ℕ,
      |Ring.choose exponent.val (k + 1)| * |base.val - 1| ^ (k + 1) - 2 / 10 ^ 18 <
        (termAt exponent (base - one) (k + 1)).val ∧
      (termAt exponent (base - one) (k + 1)).val ≤
        |Ring.choose exponent.val (k + 1)| * |base.val - 1| ^ (k + 1) ∧
      (termAt exponent (base - one) (k + 1)).val ≤ (termAt exponent (base - one) k).val * |base.val - 1| ∧
      (sumAt exponent (base - one) (k + 1)).val = (sumAt exponent (base - one) k).val +
        SignType.sign (Ring.choose exponent.val (k + 1) * (base.val - 1) ^ (k + 1)) *
          (termAt exponent (base - one) (k + 1)).val := by
  have hdistance : (base - one).val = base.val - 1 := by rw [val_sub, val_one]
  have hx : 2 * |(base - one).val| ≤ 1 := by
    rw [hdistance, ← le_div_iff₀' two_pos, abs_le]
    constructor <;> linarith
  have hraw : 2 * |(base - one).raw| ≤ scale := by
    rw [val, abs_div, abs_of_pos scale_cast_pos, ← mul_div_assoc, div_le_one scale_cast_pos] at hx
    exact_mod_cast hx
  rw [← hdistance]
  refine ⟨fun precision => ?ends, fun k => ⟨?short, ?below, ?shrinks, ?sign⟩⟩
  case ends => exact exists_rounds (val_pos.mp hf0) (val_lt_one.mp hf1).le hraw precision
  case short =>
    have hterm := exactTerm_lt_termAt hf0 hf1 hx (k + 1)
    rw [exactTerm_eq hf0 hf1, ulp_eq] at hterm
    linarith
  case below =>
    have hterm := val_termAt_le exponent (base - one) (k + 1)
    rwa [exactTerm_eq hf0 hf1] at hterm
  case shrinks => exact val_termAt_succ_le hf0 hf1 (base - one) k
  case sign => exact val_sumAt_succ hf0 hf1 (base - one) k

/-- The square root of the base one unit above one half: the loop goes on to the last unit, and its
twenty-eighth term has lost more than one. -/
theorem rounds_faithful_of_almost_half :
    (∃ n < 60, Rounds half (⟨500000000000000001⟩ - one) ⟨1⟩ n ∧
      (⟨500000000000000001⟩ : Fixed).seriesPower half ⟨1⟩ maxTerms =
        .ok (sumAt half (⟨500000000000000001⟩ - one) n)) ∧
    |Ring.choose half.val 28| * |(⟨500000000000000001⟩ : Fixed).val - 1| ^ 28 - 2 / 10 ^ 18 <
      (⟨7189599⟩ : Fixed).val ∧
    (⟨7189599⟩ : Fixed).val ≤
      |Ring.choose half.val 28| * |(⟨500000000000000001⟩ : Fixed).val - 1| ^ 28 ∧
    (⟨7189599⟩ : Fixed).val ≤ (⟨15193117⟩ : Fixed).val * |(⟨500000000000000001⟩ : Fixed).val - 1| := by
  obtain ⟨hends, hterms⟩ := rounds_faithful ⟨500000000000000001⟩ half (by norm_num [val, scale])
    (by norm_num [val, scale]) (by norm_num [val, half, scale]) (by norm_num [val, half, scale])
  have hlast : termAt half (⟨500000000000000001⟩ - one) (27 + 1) = ⟨7189599⟩ := by decide +kernel
  have hbefore : termAt half (⟨500000000000000001⟩ - one) 27 = ⟨15193117⟩ := by decide +kernel
  obtain ⟨n, hn, hrounds, -, hanswers⟩ := hends ⟨1⟩
  obtain ⟨hshort, hle, hshrinks, -⟩ := hterms 27
  rw [hlast] at hshort hle hshrinks
  rw [hbefore] at hshrinks
  exact ⟨⟨n, hn, hrounds, hanswers maxTerms (by simp only [maxTerms]; omega)⟩, hshort, hle, hshrinks⟩

end WeightedMarket.Fixed
