/-
  The binomial series of a fraction, in real numbers.

  For an exponent `f` between 0 and 1 all terms of (1 - u) ^ f after the first are negative and those
  of (1 + u) ^ f alternate, both with the magnitudes `exactTerm f u k`.  So partial sums lie above the
  power below one (`power_below_le`), by what the next terms are worth, which two geometric series
  bound (`tail_le_surplus`, `surplus_le_tail`); and above one they are off by at most the next term,
  on the one side or on the other (`power_above_le`, `le_power_above`).
-/
import Mathlib.Analysis.Analytic.Binomial
import Mathlib.Analysis.SpecificLimits.Normed

namespace WeightedMarket.Binomial

open Finset

/-! ## Coefficients -/

/-- The magnitude of the `k`-th coefficient. -/
noncomputable def coefficient (f : ℝ) : ℕ → ℝ
  | 0 => 1
  | k + 1 => coefficient f k * |f - k| / (k + 1)

/-- The magnitude of the `k`-th term at a distance `u` from one. -/
noncomputable def exactTerm (f u : ℝ) (k : ℕ) : ℝ := coefficient f k * u ^ k

variable {f u : ℝ}

theorem coefficient_nonneg (f : ℝ) (k : ℕ) : 0 ≤ coefficient f k := by
  induction k with
  | zero => exact zero_le_one
  | succ k ih =>
    rw [coefficient]
    positivity

theorem exactTerm_nonneg (hu : 0 ≤ u) (k : ℕ) : 0 ≤ exactTerm f u k :=
  mul_nonneg (coefficient_nonneg f k) (pow_nonneg hu k)

@[simp] theorem exactTerm_zero (f u : ℝ) : exactTerm f u 0 = 1 := by
  simp [exactTerm, coefficient]

/-- Each term has one factor more than the term before it. -/
theorem exactTerm_succ (f u : ℝ) (k : ℕ) :
    exactTerm f u (k + 1) = exactTerm f u k * (|f - k| / (k + 1) * u) := by
  rw [exactTerm, exactTerm, coefficient, pow_succ]
  ring

/-- No coefficient is larger than the one before it. -/
theorem abs_sub_div_le_one (hf0 : 0 < f) (hf1 : f < 1) (k : ℕ) : |f - k| / (k + 1) ≤ 1 := by
  have hk : (0 : ℝ) ≤ k := Nat.cast_nonneg k
  rw [div_le_one (by linarith), abs_le]
  constructor <;> linarith

theorem abs_sub_natCast_pos (hf0 : 0 < f) (hf1 : f < 1) (k : ℕ) : 0 < |f - k| := by
  rw [abs_pos, sub_ne_zero]
  rcases Nat.eq_zero_or_pos k with rfl | hk
  · rw [Nat.cast_zero]
    exact hf0.ne'
  · have hone : (1 : ℝ) ≤ k := by exact_mod_cast hk
    exact (hf1.trans_le hone).ne

theorem coefficient_pos (hf0 : 0 < f) (hf1 : f < 1) (k : ℕ) : 0 < coefficient f k := by
  induction k with
  | zero => exact zero_lt_one
  | succ k ih =>
    rw [coefficient]
    exact div_pos (mul_pos ih (abs_sub_natCast_pos hf0 hf1 k)) (Nat.cast_add_one_pos k)

theorem exactTerm_pos (hf0 : 0 < f) (hf1 : f < 1) (hu : 0 < u) (k : ℕ) : 0 < exactTerm f u k :=
  mul_pos (coefficient_pos hf0 hf1 k) (pow_pos hu k)

theorem abs_sub_succ (hf1 : f < 1) (k : ℕ) : |f - (k + 1 : ℕ)| = k + 1 - f := by
  have hk : (0 : ℝ) ≤ k := Nat.cast_nonneg k
  push_cast
  rw [abs_of_neg (by linarith)]
  ring

/-- The coefficients of Mathlib's binomial series are these with alternating signs. -/
theorem choose_succ_eq (hf0 : 0 < f) (hf1 : f < 1) (k : ℕ) :
    Ring.choose f (k + 1) = (-1) ^ k * coefficient f (k + 1) := by
  have hstep (n : ℕ) : Ring.choose f (n + 1) = Ring.choose f n * (f - n) / (n + 1) := by
    rw [Ring.choose_eq_smul, Ring.choose_eq_smul, descPochhammer_succ_right, Polynomial.smeval_mul,
      Nat.factorial_succ]
    simp only [Polynomial.smeval_sub, Polynomial.smeval_X, pow_one, Polynomial.smeval_natCast,
      pow_zero, nsmul_eq_mul, mul_one, smul_eq_mul, Nat.cast_mul, Nat.cast_succ]
    field_simp
  induction k with
  | zero =>
    rw [hstep, coefficient, coefficient]
    simp [abs_of_pos hf0]
  | succ k ih =>
    have hnext : coefficient f (k + 1 + 1) =
        coefficient f (k + 1) * |f - (k + 1 : ℕ)| / ((k + 1 : ℕ) + 1) := rfl
    rw [hstep, ih, hnext, abs_sub_succ hf1, pow_succ]
    push_cast
    ring

/-- The terms of Mathlib's series have these magnitudes. -/
theorem exactTerm_eq (hf0 : 0 < f) (hf1 : f < 1) (u : ℝ) (k : ℕ) :
    exactTerm f u k = |Ring.choose f k| * u ^ k := by
  rcases k with _ | k
  · simp
  · rw [choose_succ_eq hf0 hf1, abs_mul, abs_neg_one_pow, one_mul, abs_of_nonneg (coefficient_nonneg f _),
      exactTerm]

/-- Above one the terms after the first alternate, the first of them positive. -/
theorem choose_mul_pow (hf0 : 0 < f) (hf1 : f < 1) (u : ℝ) (k : ℕ) :
    Ring.choose f (k + 1) * u ^ (k + 1) = (-1) ^ k * exactTerm f u (k + 1) := by
  rw [choose_succ_eq hf0 hf1, exactTerm, mul_assoc]

/-- Below one they are all negative. -/
theorem choose_mul_neg_pow (hf0 : 0 < f) (hf1 : f < 1) (u : ℝ) (k : ℕ) :
    Ring.choose f (k + 1) * (-u) ^ (k + 1) = -exactTerm f u (k + 1) := by
  have hsign : ((-1 : ℝ) ^ k) * (-1) ^ k = 1 := by rw [← mul_pow]; simp
  rw [choose_succ_eq hf0 hf1, exactTerm, neg_pow u (k + 1), pow_succ (-1 : ℝ) k]
  linear_combination -(coefficient f (k + 1) * u ^ (k + 1)) * hsign

/-! ## The series -/

/-- **The binomial series** for a real exponent. -/
theorem hasSum_binomial {x : ℝ} (hx : |x| < 1) :
    HasSum (fun k => Ring.choose f k * x ^ k) ((1 + x) ^ f) := by
  have h := (Real.one_add_rpow_hasFPowerSeriesOnBall_zero (a := f)).hasSum (y := x) (by
    rw [Metric.mem_eball, edist_zero_right]
    simpa [enorm_eq_nnnorm, ← NNReal.coe_lt_one] using hx)
  rw [zero_add] at h
  refine h.congr_fun ?_
  intro k
  rw [binomialSeries_apply, List.ofFn_const, List.prod_replicate, smul_eq_mul]

/-- Below one all terms after the first have the same sign. -/
theorem hasSum_below (hf0 : 0 < f) (hf1 : f < 1) (hu0 : 0 ≤ u) (hu1 : u < 1) :
    HasSum (fun k => exactTerm f u (k + 1)) (1 - (1 - u) ^ f) := by
  have h := hasSum_binomial (f := f) (x := -u) (by rwa [abs_neg, abs_of_nonneg hu0])
  rw [← hasSum_nat_add_iff' 1] at h
  have hneg := h.neg
  simp only [range_one, sum_singleton, Ring.choose_zero_right, pow_zero, mul_one] at hneg
  have hvalue : -((1 + -u) ^ f - 1) = 1 - (1 - u) ^ f := by ring_nf
  rw [hvalue] at hneg
  refine hneg.congr_fun ?_
  intro k
  rw [choose_mul_neg_pow hf0 hf1, neg_neg]

/-- Above one the signs alternate. -/
theorem hasSum_above (hf0 : 0 < f) (hf1 : f < 1) (hu0 : 0 ≤ u) (hu1 : u < 1) :
    HasSum (fun k => (-1) ^ k * exactTerm f u (k + 1)) ((1 + u) ^ f - 1) := by
  have h := hasSum_binomial (f := f) (x := u) (by rwa [abs_of_nonneg hu0])
  rw [← hasSum_nat_add_iff' 1] at h
  simp only [range_one, sum_singleton, Ring.choose_zero_right, pow_zero, mul_one] at h
  refine h.congr_fun ?_
  intro k
  rw [choose_mul_pow hf0 hf1]

/-! ## Partial sums -/

/-- The factor from the `k`-th magnitude to the next, at a distance of one. -/
noncomputable def factor (f : ℝ) (k : ℕ) : ℝ := (k - f) / (k + 1)

theorem factor_nonneg (hf1 : f < 1) (k : ℕ) : 0 ≤ factor f (k + 1) := by
  have hk : (0 : ℝ) ≤ k := Nat.cast_nonneg k
  rw [factor]
  push_cast
  exact div_nonneg (by linarith) (by linarith)

/-- Terms do not grow, as no factor exceeds one. -/
theorem factor_le_one (hf0 : 0 < f) (k : ℕ) : factor f k ≤ 1 := by
  have hk : (0 : ℝ) ≤ k := Nat.cast_nonneg k
  rw [factor, div_le_one (by linarith)]
  linarith

/-- The factors grow. -/
theorem factor_mono (hf0 : 0 < f) {j k : ℕ} (h : j ≤ k) : factor f j ≤ factor f k := by
  have hj : (0 : ℝ) ≤ j := Nat.cast_nonneg j
  have hjk : (j : ℝ) ≤ k := Nat.cast_le.mpr h
  rw [factor, factor, div_le_div_iff₀ (by linarith) (by linarith)]
  nlinarith

theorem exactTerm_succ_succ (hf1 : f < 1) (u : ℝ) (k : ℕ) :
    exactTerm f u (k + 2) = exactTerm f u (k + 1) * (factor f (k + 1) * u) := by
  rw [exactTerm_succ, abs_sub_succ hf1, factor]
  push_cast
  rfl

/-- From the second term on the terms descend. -/
theorem exactTerm_antitone (hf0 : 0 < f) (hf1 : f < 1) (hu0 : 0 ≤ u) (hu1 : u ≤ 1) :
    Antitone fun k => exactTerm f u (k + 1) := by
  refine antitone_nat_of_succ_le ?_
  intro k
  rw [exactTerm_succ_succ hf1]
  refine mul_le_of_le_one_right (exactTerm_nonneg hu0 _) ?_
  exact mul_le_one₀ (factor_le_one hf0 _) hu0 hu1

/-- **Below one a partial sum exceeds the power** by at least the geometric series that starts with
the next term and goes on with its factor. -/
theorem tail_le_surplus (hf0 : 0 < f) (hf1 : f < 1) (hu0 : 0 ≤ u) (hu1 : u < 1) (n : ℕ) :
    exactTerm f u (n + 1) / (1 - factor f (n + 1) * u) ≤
      1 - ∑ k ∈ range n, exactTerm f u (k + 1) - (1 - u) ^ f := by
  have hr0 : 0 ≤ factor f (n + 1) * u := mul_nonneg (factor_nonneg hf1 n) hu0
  have hr1 : factor f (n + 1) * u < 1 :=
    (mul_le_of_le_one_left hu0 (factor_le_one hf0 _)).trans_lt hu1
  -- factors grow, so that the tail is at least the geometric series of the first of them
  have htail := (hasSum_nat_add_iff' n).mpr (hasSum_below hf0 hf1 hu0 hu1)
  have hgeometric := (hasSum_geometric_of_lt_one hr0 hr1).mul_left (exactTerm f u (n + 1))
  have hterm : ∀ k, exactTerm f u (n + 1) * (factor f (n + 1) * u) ^ k ≤
      exactTerm f u (k + n + 1) := by
    intro k
    induction k with
    | zero => simp
    | succ k ih =>
      have hfactor : factor f (n + 1) * u ≤ factor f (k + n + 1) * u :=
        mul_le_mul_of_nonneg_right (factor_mono hf0 (by omega)) hu0
      calc exactTerm f u (n + 1) * (factor f (n + 1) * u) ^ (k + 1)
          = exactTerm f u (n + 1) * (factor f (n + 1) * u) ^ k * (factor f (n + 1) * u) := by ring
        _ ≤ exactTerm f u (k + n + 1) * (factor f (k + n + 1) * u) :=
            mul_le_mul ih hfactor hr0 (exactTerm_nonneg hu0 _)
        _ = exactTerm f u (k + 1 + n + 1) := by
            rw [← exactTerm_succ_succ hf1, show k + n + 2 = k + 1 + n + 1 by omega]
  have h := hasSum_le hterm hgeometric htail
  rw [← div_eq_mul_inv] at h
  linarith

/-- Below one it exceeds the power by at most the geometric series of the distance. -/
theorem surplus_le_tail (hf0 : 0 < f) (hf1 : f < 1) (hu0 : 0 ≤ u) (hu1 : u < 1) (n : ℕ) :
    1 - ∑ k ∈ range n, exactTerm f u (k + 1) - (1 - u) ^ f ≤ exactTerm f u (n + 1) / (1 - u) := by
  have htail := (hasSum_nat_add_iff' n).mpr (hasSum_below hf0 hf1 hu0 hu1)
  have hgeometric := (hasSum_geometric_of_lt_one hu0 hu1).mul_left (exactTerm f u (n + 1))
  have hterm : ∀ k, exactTerm f u (k + n + 1) ≤ exactTerm f u (n + 1) * u ^ k := by
    intro k
    induction k with
    | zero => simp
    | succ k ih =>
      have hfactor : factor f (k + n + 1) * u ≤ u :=
        mul_le_of_le_one_left hu0 (factor_le_one hf0 _)
      calc exactTerm f u (k + 1 + n + 1)
          = exactTerm f u (k + n + 1) * (factor f (k + n + 1) * u) := by
            rw [← exactTerm_succ_succ hf1, show k + n + 2 = k + 1 + n + 1 by omega]
        _ ≤ exactTerm f u (n + 1) * u ^ k * u :=
            mul_le_mul ih hfactor (mul_nonneg (factor_nonneg hf1 _) hu0)
              (mul_nonneg (exactTerm_nonneg hu0 _) (pow_nonneg hu0 k))
        _ = exactTerm f u (n + 1) * u ^ (k + 1) := by ring
  have h := hasSum_le hterm htail hgeometric
  rw [← div_eq_mul_inv] at h
  linarith

/-- Below one no partial sum is less than the power. -/
theorem power_below_le (hf0 : 0 < f) (hf1 : f < 1) (hu0 : 0 ≤ u) (hu1 : u < 1) (n : ℕ) :
    (1 - u) ^ f ≤ 1 - ∑ k ∈ range n, exactTerm f u (k + 1) := by
  have h := sum_le_hasSum (range n) (fun k _ => exactTerm_nonneg hu0 (k + 1))
    (hasSum_below hf0 hf1 hu0 hu1)
  linarith

/-- **Above one a partial sum** falls short by at most the next term if its last one was negative,
and not at all if it was positive. -/
theorem power_above_le (hf0 : 0 < f) (hf1 : f < 1) (hu0 : 0 ≤ u) (hu1 : u < 1) (n : ℕ) :
    (1 + u) ^ f ≤ 1 + ∑ k ∈ range n, (-1) ^ k * exactTerm f u (k + 1) +
      if Even n then exactTerm f u (n + 1) else 0 := by
  have hlimit := (hasSum_above hf0 hf1 hu0 hu1).tendsto_sum_nat
  have hupper := (exactTerm_antitone hf0 hf1 hu0 hu1.le).tendsto_le_alternating_series hlimit
  -- the sums up to a positive term lie above the limit
  rcases Nat.even_or_odd n with heven | hodd
  · obtain ⟨k, rfl⟩ := even_iff_exists_two_mul.mp heven
    have h := hupper k
    rw [sum_range_succ, (even_two_mul k).neg_one_pow, one_mul] at h
    rw [if_pos heven]
    linarith
  · obtain ⟨k, rfl⟩ := hodd
    have h := hupper k
    rw [if_neg (Nat.not_even_iff_odd.mpr (odd_two_mul_add_one k))]
    linarith

/-- Above one it exceeds the power by at most the next term if its last one was positive, and not at
all if it was negative. -/
theorem le_power_above (hf0 : 0 < f) (hf1 : f < 1) (hu0 : 0 ≤ u) (hu1 : u < 1) (n : ℕ) :
    1 + ∑ k ∈ range n, (-1) ^ k * exactTerm f u (k + 1) ≤
      (1 + u) ^ f + if Even n then 0 else exactTerm f u (n + 1) := by
  have hlimit := (hasSum_above hf0 hf1 hu0 hu1).tendsto_sum_nat
  have hlower := (exactTerm_antitone hf0 hf1 hu0 hu1.le).alternating_series_le_tendsto hlimit
  -- the sums up to a negative term lie below the limit
  rcases Nat.even_or_odd n with heven | hodd
  · obtain ⟨k, rfl⟩ := even_iff_exists_two_mul.mp heven
    have h := hlower k
    rw [if_pos heven]
    linarith
  · have hnot := Nat.not_even_iff_odd.mpr hodd
    obtain ⟨k, rfl⟩ := hodd
    have h := hlower (k + 1)
    rw [show 2 * (k + 1) = 2 * k + 1 + 1 by ring, sum_range_succ,
      (odd_two_mul_add_one k).neg_one_pow] at h
    rw [if_neg hnot]
    linarith

end WeightedMarket.Binomial
