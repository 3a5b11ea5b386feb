/-
  Why stopping early does no harm.

  Above one a partial sum can fall short by its next term, the shortfall; but then it is multiplied by
  a power of one half, and the partial sum for that one is too large by a surplus.  Both sums
  stop at the same precision, and the series of one half runs at a larger distance, so it never stops
  first.  Three cases are left, and in each the surplus covers the shortfall: both stop at the same
  term (`covered_of_same`), one half stops at the third and the other at the second
  (`covered_of_third`), or one half goes on to the fourth at least (`covered_of_later`), where its last
  term but one is as large as any that the other leaves out.
-/
import Mathlib.Analysis.Convex.SpecificFunctions.Basic
import WeightedMarket.Proofs.Power.Binomial

namespace WeightedMarket.Binomial

variable {f u : ℝ}

/-! ## Sizes -/

theorem coefficient_le_one (hf0 : 0 < f) (hf1 : f < 1) (k : ℕ) : coefficient f k ≤ 1 := by
  induction k with
  | zero => exact le_refl 1
  | succ k ih =>
    rw [coefficient, mul_div_assoc]
    exact mul_le_one₀ ih (by positivity) (abs_sub_div_le_one hf0 hf1 k)

/-- Every term is at most the one before it times the distance. -/
theorem exactTerm_succ_le (hf0 : 0 < f) (hf1 : f < 1) (hu0 : 0 ≤ u) (k : ℕ) :
    exactTerm f u (k + 1) ≤ exactTerm f u k * u := by
  have hfactor := abs_sub_div_le_one hf0 hf1 k
  rw [exactTerm_succ]
  exact mul_le_mul_of_nonneg_left (mul_le_of_le_one_left hu0 hfactor) (exactTerm_nonneg hu0 k)

/-- A term after the first is at most the distance. -/
theorem exactTerm_succ_le_self (hf0 : 0 < f) (hf1 : f < 1) (hu0 : 0 ≤ u) (hu1 : u ≤ 1) (k : ℕ) :
    exactTerm f u (k + 1) ≤ u := by
  have hpow : u ^ (k + 1) ≤ u := pow_le_of_le_one hu0 hu1 (Nat.succ_ne_zero k)
  calc exactTerm f u (k + 1) ≤ 1 * u ^ (k + 1) :=
        mul_le_mul_of_nonneg_right (coefficient_le_one hf0 hf1 _) (pow_nonneg hu0 _)
    _ ≤ u := by rwa [one_mul]

/-- From the third on a term within a third of one is at most 1/27. -/
theorem exactTerm_le (hf0 : 0 < f) (hf1 : f < 1) (hu0 : 0 ≤ u) (hu : u ≤ 1 / 3) {m : ℕ} (hm : 3 ≤ m) :
    exactTerm f u m ≤ 1 / 27 := by
  have hpow : u ^ m ≤ 1 / 27 := by
    calc u ^ m ≤ u ^ 3 := pow_le_pow_of_le_one hu0 (by linarith) hm
      _ ≤ (1 / 3) ^ 3 := pow_le_pow_left₀ hu0 hu 3
      _ = 1 / 27 := by norm_num
  calc exactTerm f u m ≤ 1 * u ^ m :=
        mul_le_mul_of_nonneg_right (coefficient_le_one hf0 hf1 m) (pow_nonneg hu0 m)
    _ ≤ 1 / 27 := by rwa [one_mul]

/-- The power of one half lies below its chord. -/
theorem half_power_le (hf0 : 0 ≤ f) (hf1 : f ≤ 1) : ((1 : ℝ) / 2) ^ f ≤ 1 - f / 2 := by
  have h := rpow_one_add_le_one_add_mul_self (s := -(1 / 2)) (by norm_num) hf0 hf1
  calc ((1 : ℝ) / 2) ^ f = (1 + -(1 / 2)) ^ f := by norm_num
    _ ≤ 1 + f * -(1 / 2) := h
    _ = 1 - f / 2 := by ring

/-! ## The surplus of one half -/

/-- What the sum of the terms of one half up to the `n`-th is too large by, at least. -/
noncomputable def surplus (f : ℝ) (n : ℕ) : ℝ :=
  exactTerm f (1 / 2) (n + 1) / (1 - factor f (n + 1) * (1 / 2))

theorem factor_half_lt (hf0 : 0 < f) (k : ℕ) : factor f k * (1 / 2) < 1 := by
  have := factor_le_one hf0 k
  linarith

theorem exactTerm_le_surplus (hf0 : 0 < f) (hf1 : f < 1) (n : ℕ) :
    exactTerm f (1 / 2) (n + 1) ≤ surplus f n := by
  have hfactor := factor_nonneg hf1 n
  have hlt := factor_half_lt hf0 (n + 1)
  rw [surplus, le_div_iff₀ (by linarith)]
  refine mul_le_of_le_one_right (exactTerm_nonneg (by norm_num) _) ?_
  linarith

theorem surplus_nonneg (hf0 : 0 < f) (hf1 : f < 1) (n : ℕ) : 0 ≤ surplus f n :=
  (exactTerm_nonneg (by norm_num) _).trans (exactTerm_le_surplus hf0 hf1 n)

/-- A surplus covers a shortfall if the product of what both lead to is not too small. -/
def Covers (f surplus shortfall : ℝ) : Prop := shortfall * ((1 / 2) ^ f + surplus) ≤ surplus

/-- A factor that has the surplus keeps its power in spite of the shortfall. -/
theorem Covers.le_mul {s shortfall total : ℝ} (h : Covers f s shortfall) (hs : 0 ≤ s)
    (hle : (1 / 2) ^ f + s ≤ total) : (1 / 2) ^ f ≤ (1 - shortfall) * total := by
  have hpos : (0 : ℝ) < (1 / 2) ^ f := Real.rpow_pos_of_pos (by norm_num) f
  rw [Covers] at h
  have hone : shortfall ≤ 1 := by
    by_contra hgt
    have := mul_le_mul_of_nonneg_right (not_le.mp hgt).le (show 0 ≤ (1 / 2) ^ f + s by linarith)
    linarith
  have := mul_le_mul_of_nonneg_left hle (sub_nonneg.mpr hone)
  linarith

section

variable (hf0 : 0 < f) (hf1 : f < 1) (hu0 : 0 ≤ u) (hu : u ≤ 1 / 3)

include hf0 hf1 hu0 hu

/-- A margin of a twenty-sixth is enough for the terms from the third on. -/
theorem covers_of_le {s : ℝ} {m : ℕ} (hm : 3 ≤ m) (h : 27 / 26 * exactTerm f u m ≤ s) :
    Covers f s (exactTerm f u m) := by
  have hterm := exactTerm_nonneg (f := f) hu0 m
  have hsmall := exactTerm_le hf0 hf1 hu0 hu hm
  have hhalf : ((1 : ℝ) / 2) ^ f ≤ 1 := (half_power_le hf0.le hf1.le).trans (by linarith)
  have hproduct : exactTerm f u m * ((1 / 2) ^ f) ≤ exactTerm f u m :=
    mul_le_of_le_one_right hterm hhalf
  have hsecond : exactTerm f u m * s ≤ 1 / 27 * s :=
    mul_le_mul_of_nonneg_right hsmall (by linarith)
  rw [Covers, mul_add]
  linarith

/-- Both sums stop at the same term. -/
theorem covered_of_same {n : ℕ} (hn : 2 ≤ n) : Covers f (surplus f n) (exactTerm f u (n + 1)) := by
  refine covers_of_le hf0 hf1 hu0 hu (by omega) ?_
  have hpow : u ^ (n + 1) ≤ 8 / 27 * (1 / 2) ^ (n + 1) := by
    calc u ^ (n + 1) ≤ (2 / 3 * (1 / 2)) ^ (n + 1) := pow_le_pow_left₀ hu0 (by linarith) _
      _ = (2 / 3) ^ (n + 1) * (1 / 2) ^ (n + 1) := mul_pow _ _ _
      _ ≤ (2 / 3) ^ 3 * (1 / 2) ^ (n + 1) :=
          mul_le_mul_of_nonneg_right
            (pow_le_pow_of_le_one (by norm_num) (by norm_num) (by omega)) (by positivity)
      _ = 8 / 27 * (1 / 2) ^ (n + 1) := by norm_num
  have hterm : exactTerm f u (n + 1) ≤ 8 / 27 * exactTerm f (1 / 2) (n + 1) := by
    have := mul_le_mul_of_nonneg_left hpow (coefficient_nonneg f (n + 1))
    rw [exactTerm, exactTerm]
    linarith
  have hsurplus := exactTerm_le_surplus hf0 hf1 n
  have hnonneg := exactTerm_nonneg (f := f) (u := 1 / 2) (by norm_num) (n + 1)
  linarith

/-- One half stops at the third term, the other at the second. -/
theorem covered_of_third : Covers f (surplus f 3) (exactTerm f u 3) := by
  refine covers_of_le hf0 hf1 hu0 hu (le_refl 3) ?_
  have hnonneg := coefficient_nonneg f 3
  have hcube : u ^ 3 ≤ 1 / 27 := by
    calc u ^ 3 ≤ (1 / 3) ^ 3 := pow_le_pow_left₀ hu0 hu 3
      _ = 1 / 27 := by norm_num
  have hterm : exactTerm f u 3 ≤ coefficient f 3 * (1 / 27) := mul_le_mul_of_nonneg_left hcube hnonneg
  have hfourth : exactTerm f (1 / 2) 4 = coefficient f 3 * ((3 - f) / 64) := by
    rw [exactTerm, coefficient, show |f - (3 : ℕ)| = 3 - f by
      rw [abs_of_neg (by push_cast; linarith)]; push_cast; ring]
    push_cast
    ring
  have hfactor : 1 - factor f 4 * (1 / 2) = (6 + f) / 10 := by
    rw [factor]
    push_cast
    ring
  have hsurplus : surplus f 3 = coefficient f 3 * ((3 - f) / 64 / ((6 + f) / 10)) := by
    rw [surplus, hfourth, hfactor, mul_div_assoc]
  have hratio : 1 / 26 ≤ (3 - f) / 64 / ((6 + f) / 10) := by
    rw [le_div_iff₀ (by linarith)]
    linarith
  have hcovered := mul_le_mul_of_nonneg_left hratio hnonneg
  rw [hsurplus]
  linarith

end

/-! ### Going on to the fourth term

  With `p` the precision, the shortfall is at most `p` times a factor and a third, and the surplus at
  least `p` times the same factor and the ratio below, which is the larger of the two by three parts in
  a hundred. -/

/-- What the two terms after the last one are worth at least, against the last but one. -/
noncomputable def laterRatio (f : ℝ) : ℝ := 3 * (4 - f) / (5 * (7 + f))

theorem laterRatio_le (hf0 : 0 < f) (hf1 : f < 1) {k : ℕ} (hk : 2 ≤ k) :
    laterRatio f ≤ factor f (k + 2) * (1 / 4) / (1 - factor f (k + 3) * (1 / 2)) := by
  have h4 : factor f 4 ≤ factor f (k + 2) := factor_mono hf0 (by omega)
  have h5 : factor f 5 ≤ factor f (k + 3) := factor_mono hf0 (by omega)
  have hlt := factor_half_lt hf0 (k + 3)
  have h4eq : factor f 4 = (4 - f) / 5 := by rw [factor]; push_cast; ring
  have h5eq : factor f 5 = (5 - f) / 6 := by rw [factor]; push_cast; ring
  rw [h4eq] at h4
  rw [h5eq] at h5
  calc laterRatio f = (4 - f) / 5 * (1 / 4) / (1 - (5 - f) / 6 * (1 / 2)) := by
        rw [laterRatio, div_eq_div_iff (by positivity) (by linarith)]
        ring
    _ ≤ factor f (k + 2) * (1 / 4) / (1 - factor f (k + 3) * (1 / 2)) :=
        div_le_div₀ (by linarith) (by linarith) (by linarith) (by linarith)

theorem le_surplus_later (hf0 : 0 < f) (hf1 : f < 1) {k : ℕ} {p : ℝ} (hk : 2 ≤ k) (hp0 : 0 ≤ p)
    (hlarge : p ≤ exactTerm f (1 / 2) (k + 1)) :
    p * factor f (k + 1) * laterRatio f ≤ surplus f (k + 2) := by
  have hfactor := factor_nonneg hf1 k
  have hlt := factor_half_lt hf0 (k + 3)
  have hscaled := mul_le_mul_of_nonneg_right hlarge (mul_nonneg hfactor (factor_nonneg hf1 (k + 1)))
  calc p * factor f (k + 1) * laterRatio f
      ≤ p * factor f (k + 1) * (factor f (k + 2) * (1 / 4) / (1 - factor f (k + 3) * (1 / 2))) :=
        mul_le_mul_of_nonneg_left (laterRatio_le hf0 hf1 hk) (mul_nonneg hp0 hfactor)
    _ = p * (factor f (k + 1) * factor f (k + 2)) * (1 / 4) / (1 - factor f (k + 3) * (1 / 2)) := by
        ring
    _ ≤ exactTerm f (1 / 2) (k + 3) / (1 - factor f (k + 3) * (1 / 2)) := by
        rw [div_le_div_iff_of_pos_right (by linarith), exactTerm_succ_succ hf1,
          exactTerm_succ_succ hf1]
        linarith
    _ = surplus f (k + 2) := rfl

/-- The ratios, with the rounding of the precision. -/
theorem third_le_laterRatio (hf0 : 0 < f) (hf1 : f < 1) :
    (1 + 1 / 10 ^ 8) * (1 / 3) * (1 - f / 2) ≤ laterRatio f * (1 - 1 / 10 ^ 8) := by
  rw [laterRatio, div_mul_eq_mul_div, le_div_iff₀ (by linarith)]
  nlinarith

/-- One half goes on to the fourth term at least.  Its last term but one has reached the precision `p`,
which the last term of the other is below, but for its rounding. -/
theorem covered_of_later (hf0 : 0 < f) (hf1 : f < 1) (hu0 : 0 ≤ u) (hu : u ≤ 1 / 3) {k n : ℕ} {p : ℝ}
    (hk : 2 ≤ k) (hnk : n ≤ k) (hp0 : 0 ≤ p) (hp : p ≤ 1 / 10 ^ 8)
    (hlarge : p ≤ exactTerm f (1 / 2) (k + 1))
    (hsmall : exactTerm f u (n + 1) ≤ (1 + 1 / 10 ^ 8) * p) :
    Covers f (surplus f (k + 2)) (exactTerm f u (n + 2)) := by
  have hfactor := factor_nonneg hf1 k
  have hone := factor_le_one hf0 (k + 1)
  have hpfactor := mul_nonneg hp0 hfactor
  have hshort : exactTerm f u (n + 2) ≤ (1 + 1 / 10 ^ 8) * p * (factor f (k + 1) * (1 / 3)) := by
    rw [exactTerm_succ_succ hf1]
    refine mul_le_mul hsmall ?_ (mul_nonneg (factor_nonneg hf1 n) hu0) (by positivity)
    exact mul_le_mul (factor_mono hf0 (by omega)) hu hu0 hfactor
  have htiny : exactTerm f u (n + 2) ≤ 1 / 10 ^ 8 := by
    have hstep : (1 + 1 / 10 ^ 8) * p * (factor f (k + 1) * (1 / 3)) ≤
        (1 + 1 / 10 ^ 8) * p * (1 * (1 / 3)) :=
      mul_le_mul_of_nonneg_left (mul_le_mul_of_nonneg_right hone (by norm_num)) (by positivity)
    linarith
  have hleft : exactTerm f u (n + 2) * (1 / 2) ^ f ≤
      p * factor f (k + 1) * ((1 + 1 / 10 ^ 8) * (1 / 3) * (1 - f / 2)) := by
    calc exactTerm f u (n + 2) * (1 / 2) ^ f ≤ exactTerm f u (n + 2) * (1 - f / 2) :=
          mul_le_mul_of_nonneg_left (half_power_le hf0.le hf1.le) (exactTerm_nonneg hu0 _)
      _ ≤ (1 + 1 / 10 ^ 8) * p * (factor f (k + 1) * (1 / 3)) * (1 - f / 2) :=
          mul_le_mul_of_nonneg_right hshort (by linarith)
      _ = p * factor f (k + 1) * ((1 + 1 / 10 ^ 8) * (1 / 3) * (1 - f / 2)) := by ring
  have hmiddle := mul_le_mul_of_nonneg_left (third_le_laterRatio hf0 hf1) hpfactor
  have hright := mul_le_mul_of_nonneg_right (le_surplus_later hf0 hf1 hk hp0 hlarge)
    (show (0 : ℝ) ≤ 1 - 1 / 10 ^ 8 by norm_num)
  have hlast := mul_le_mul_of_nonneg_right htiny (surplus_nonneg hf0 hf1 (k + 2))
  show exactTerm f u (n + 2) * ((1 / 2) ^ f + surplus f (k + 2)) ≤ surplus f (k + 2)
  rw [mul_add]
  linarith

end WeightedMarket.Binomial
