/-
  Powers of a base of at least one.

  Such a base is halved until it is below four thirds, and then the power of two, the reciprocal of
  one half's, takes part as often.  Halving rounds down, one half's series is never too small and a
  reciprocal is truncated, so that all of this lowers the power; only the series of the halved base
  raises it.  What that amounts to is bounded in two ways at once (`excess`): by 10⁻⁸ of the power for
  any base, and by the base's own distance from one for those next to it (`raise_le_of_one_le`).
-/
import WeightedMarket.Proofs.Power.Excess

namespace WeightedMarket.Fixed

open Binomial Decision

variable {exponent base power near : Fixed} {j : ℕ}

/-! ## Halving -/

/-- How the fractional power of a base of at least two thirds was computed: the base was halved `j`
times, and the series of what it became is multiplied by as many powers of two. -/
structure Halved (base exponent power : Fixed) (j : ℕ) (near : Fixed) : Prop where
  base_eq : (reduce base).base.raw = base.raw / 2 ^ j
  near_eq : seriesPower (reduce base).base exponent powerPrecision maxTerms = .ok near
  power_eq : j = 0 ∧ power = near ∨ 0 < j ∧ ∃ halfPower,
    seriesPower half exponent powerPrecision maxTerms = .ok halfPower ∧
      power = near.mul ((one.quo halfPower).power j)

theorem fractionalPower_eq_ok_of_two_thirds_le (hle : 2 * scale ≤ 3 * base.raw)
    (h : base.fractionalPower exponent = .ok power) : ∃ j near, Halved base exponent power j near := by
  rw [fractionalPower, bind_eq_ok] at h
  obtain ⟨near, hnear, h⟩ := h
  obtain ⟨j, hshift, hbase⟩ := reduce_of_two_thirds_le hle
  refine ⟨j, near, hbase, hnear, ?_⟩
  rcases Nat.eq_zero_or_pos j with hzero | hj
  · rw [if_pos (by rw [hshift, hzero]; rfl), Decision.pure_eq_ok] at h
    exact .inl ⟨hzero, h.symm⟩
  · rw [if_neg (by omega), bind_eq_ok] at h
    obtain ⟨halfPower, hhalf, h⟩ := h
    rw [if_neg (by omega), bind_eq_ok] at h
    obtain ⟨twoPower, htwo, h⟩ := h
    rw [Decision.pure_eq_ok, hshift, Int.natAbs_natCast, ← divide_eq_quo htwo] at h
    exact .inr ⟨hj, halfPower, hhalf, h.symm⟩

/-- What was halved is not larger than the base is as often. -/
theorem Halved.val_mul_pow_le (h : Halved base exponent power j near) :
    (reduce base).base.val * 2 ^ j ≤ base.val := by
  have hraw : (reduce base).base.raw * 2 ^ j ≤ base.raw := by
    rw [h.base_eq]
    exact Int.ediv_mul_le _ (pow_ne_zero j (by decide))
  have hcast : ((reduce base).base.raw : ℝ) * 2 ^ j ≤ base.raw := by exact_mod_cast hraw
  rw [val, val, div_mul_eq_mul_div]
  exact div_le_div_of_nonneg_right hcast scale_cast_pos.le

theorem two_thirds_le_val_reduce (hpos : 0 < base.raw) : 2 / 3 ≤ (reduce base).base.val := by
  have hcast : (2 : ℝ) * scale ≤ 3 * (reduce base).base.raw := by
    exact_mod_cast (reduce_base_bounds hpos).1
  rw [val, le_div_iff₀ scale_cast_pos]
  linarith

/-- What was halved makes the base's power up with the powers of two, or less. -/
theorem Halved.rpow_mul_le (h : Halved base exponent power j near) (hpos : 0 < base.raw)
    (hf0 : 0 < exponent.val) :
    (reduce base).base.val ^ exponent.val * (2 ^ exponent.val) ^ j ≤ base.val ^ exponent.val := by
  have hreduced := two_thirds_le_val_reduce hpos
  rw [← Real.rpow_natCast, ← Real.rpow_mul (by norm_num), mul_comm exponent.val,
    Real.rpow_mul (by norm_num), Real.rpow_natCast, ← Real.mul_rpow (by linarith) (by positivity)]
  exact Real.rpow_le_rpow (by positivity) h.val_mul_pow_le hf0.le

/-! ## How much a power is too large -/

/-- The part of its power that a computed power of a base of at least one may have too much. -/
noncomputable def excess (b : ℝ) : ℝ := min (1 / 10 ^ 8) (31 / 10 ^ 9 * (1 - 1 / b))

theorem excess_nonneg {b : ℝ} (hb : 1 ≤ b) : 0 ≤ excess b := by
  have hinverse : 1 / b ≤ 1 := (div_le_one (by linarith)).mpr hb
  exact le_min (by norm_num) (mul_nonneg (by norm_num) (by linarith))

theorem excess_mono {b c : ℝ} (hb : 1 ≤ b) (hbc : b ≤ c) : excess b ≤ excess c := by
  have hinverse : 1 / c ≤ 1 / b := one_div_le_one_div_of_le (by linarith) hbc
  exact min_le_min_left _ (mul_le_mul_of_nonneg_left (by linarith) (by norm_num))

/-- Below four thirds what grows with the distance from one is within both bounds. -/
theorem le_excess_of_lt {b : ℝ} (hb : 1 ≤ b) (hlt : b ≤ 4 / 3) : 12 / 10 ^ 9 * (b - 1) ≤ excess b := by
  have hinverse : b - 1 ≤ 4 / 3 * (1 - 1 / b) := by
    have hnonneg : 0 ≤ 1 - 1 / b := by
      rw [sub_nonneg, div_le_one (by linarith)]
      exact hb
    calc b - 1 = b * (1 - 1 / b) := by
          rw [mul_sub, mul_one, mul_one_div_cancel (by linarith)]
      _ ≤ 4 / 3 * (1 - 1 / b) := mul_le_mul_of_nonneg_right hlt hnonneg
  exact le_min (by linarith) (by linarith)

/-- From four thirds on a bound that is a little less than the first is within the second too. -/
theorem le_excess_of_le {b : ℝ} (hb : 4 / 3 ≤ b) : 77 / 10 ^ 10 ≤ excess b := by
  have hinverse : 1 / b ≤ 3 / 4 := by
    rw [div_le_div_iff₀ (by linarith) (by norm_num)]
    linarith
  exact le_min (by norm_num) (by linarith)

section

variable (hf0 : 0 < exponent.val) (hf1 : exponent.val < 1)

include hf0 hf1

/-- The power of two is not too large, one half's not being too small. -/
theorem two_le_rpow {halfPower : Fixed} {k : ℕ} (h : Near half exponent k halfPower) :
    0 ≤ (one.quo halfPower).val ∧ (one.quo halfPower).val ≤ 2 ^ exponent.val := by
  have hchord : (0 : ℝ) < (1 / 2) ^ exponent.val := Real.rpow_pos_of_pos (by norm_num) _
  have hlower : (1 / 2) ^ exponent.val ≤ halfPower.val := by
    have := h.add_surplus_le hf0 hf1
    linarith [surplus_nonneg hf0 hf1 k]
  have hpos : 0 < halfPower.val := by linarith
  have hone : 0 ≤ one.val := by rw [val_one]; exact zero_le_one
  constructor
  · exact val_nonneg.mpr (raw_quo_nonneg (val_nonneg.mp hone) (val_pos.mp hpos).le)
  · calc (one.quo halfPower).val ≤ one.val / halfPower.val := val_quo_le hone hpos
      _ ≤ 1 / (1 / 2) ^ exponent.val := by
          rw [val_one]
          exact one_div_le_one_div_of_le hchord hlower
      _ = 2 ^ exponent.val := by
          rw [one_div, one_div, Real.inv_rpow (by norm_num), inv_inv]

/-- A reduced base's series is too large by less than 10⁻⁸ of a power, which is two thirds at least. -/
theorem near_reduce_le {n : ℕ} (h : Near (reduce base).base exponent n near) (hpos : 0 < base.raw) :
    near.val ≤ (reduce base).base.val ^ exponent.val * (1 + 77 / 10 ^ 10) := by
  have hpower : 2 / 3 ≤ (reduce base).base.val ^ exponent.val := by
    calc (2 / 3 : ℝ) = (2 / 3) ^ (1 : ℝ) := (Real.rpow_one _).symm
      _ ≤ (2 / 3) ^ exponent.val :=
          Real.rpow_le_rpow_of_exponent_ge (by norm_num) (by norm_num) hf1.le
      _ ≤ (reduce base).base.val ^ exponent.val :=
          Real.rpow_le_rpow (by norm_num) (two_thirds_le_val_reduce hpos) hf0.le
  have := h.le_power_add hf0 hf1 (reduce_base_near hpos)
  linarith

/-- A base that was halved. -/
theorem Halved.le_of_pos (h : Halved base exponent power j near) (hj : 0 < j) (hpos : 0 < base.raw) :
    power.val ≤ base.val ^ exponent.val * (1 + excess base.val) := by
  have hne : exponent.raw ≠ 0 := (val_pos.mp hf0).ne'
  obtain ⟨n, hnear⟩ := near_of_seriesPower hne h.near_eq
  obtain ⟨_, halfPower, hhalfEq, rfl⟩ := h.power_eq.resolve_left (by omega)
  obtain ⟨k, hhalf⟩ := near_of_seriesPower hne hhalfEq
  obtain ⟨htwo0, htwo⟩ := two_le_rpow hf0 hf1 hhalf
  have hnear0 := hnear.val_nonneg hf0 hf1 (two_mul_abs_le (reduce_base_near hpos))
  have hfour : 4 / 3 ≤ base.val := by
    have hpow : (2 : ℝ) ^ 1 ≤ 2 ^ j := pow_le_pow_right₀ (by norm_num) hj
    have hreduced := two_thirds_le_val_reduce hpos
    have := mul_le_mul hreduced hpow (by norm_num) (by linarith)
    linarith [h.val_mul_pow_le]
  have htwoPow0 : 0 ≤ ((2 : ℝ) ^ exponent.val) ^ j := by positivity
  have hbasePower : 0 ≤ base.val ^ exponent.val := Real.rpow_nonneg (by linarith) _
  calc (near.mul ((one.quo halfPower).power j)).val
      ≤ near.val * ((one.quo halfPower).power j).val :=
        val_mul_le hnear0 (val_nonneg.mpr (power_nonneg (val_nonneg.mp htwo0) j))
    _ ≤ near.val * (2 ^ exponent.val) ^ j :=
        mul_le_mul_of_nonneg_left ((power_le_pow htwo0 j).trans (pow_le_pow_left₀ htwo0 htwo j)) hnear0
    _ ≤ (reduce base).base.val ^ exponent.val * (1 + 77 / 10 ^ 10) * (2 ^ exponent.val) ^ j :=
        mul_le_mul_of_nonneg_right (near_reduce_le hf0 hf1 hnear hpos) htwoPow0
    _ = (reduce base).base.val ^ exponent.val * (2 ^ exponent.val) ^ j * (1 + 77 / 10 ^ 10) := by ring
    _ ≤ base.val ^ exponent.val * (1 + 77 / 10 ^ 10) :=
        mul_le_mul_of_nonneg_right (h.rpow_mul_le hpos hf0) (by norm_num)
    _ ≤ base.val ^ exponent.val * (1 + excess base.val) :=
        mul_le_mul_of_nonneg_left (by linarith [le_excess_of_le hfour]) hbasePower

/-- **The fractional power** of a base of at least one. -/
theorem fractionalPower_le (hge : scale ≤ base.raw) (h : base.fractionalPower exponent = .ok power) :
    power.val ≤ base.val ^ exponent.val * (1 + excess base.val) := by
  have hne : exponent.raw ≠ 0 := (val_pos.mp hf0).ne'
  have hpos : 0 < base.raw := Int.lt_of_lt_of_le scale_pos hge
  obtain ⟨j, near, hhalved⟩ := fractionalPower_eq_ok_of_two_thirds_le (by omega) h
  rcases hhalved.power_eq with ⟨rfl, rfl⟩ | ⟨hj, _⟩
  · -- nothing is halved
    have hbase : (reduce base).base = base := Fixed.ext (by
      rw [hhalved.base_eq, pow_zero, Int.ediv_one])
    obtain ⟨n, hnear⟩ := near_of_seriesPower hne hhalved.near_eq
    have hx := reduce_base_near hpos
    rw [hbase] at hnear hx
    have hone := one_le_val.mpr hge
    have hlt : base.val ≤ 4 / 3 := by
      have hx3 := mul_abs_val_le_one hx
      rw [abs_val_sub_one_of_ge hone] at hx3
      push_cast at hx3
      linarith
    have hsum := hnear.le_of_one_le hf0 hf1 hone hx
    have hpower : 1 ≤ base.val ^ exponent.val := Real.one_le_rpow hone hf0.le
    have hexcess := le_excess_of_lt hone hlt
    have hgrown := mul_le_mul hpower hexcess (mul_nonneg (by norm_num) (by linarith)) (by linarith)
    linarith
  · exact hhalved.le_of_pos hf0 hf1 hj hpos

end

/-- **A power of a base of at least one**, with an exponent below one, has at most its excess too
much. -/
theorem raise_le_of_one_le (hge : scale ≤ base.raw) (hlt : exponent.raw < scale)
    (h : base.raise exponent = .ok power) :
    power.val ≤ base.val ^ exponent.val * (1 + excess base.val) := by
  obtain ⟨hpos, hexponent, hcases⟩ := raise_eq_ok h
  have hone := one_le_val.mpr hge
  have hwhole : exponent.wholePart = 0 := by
    rw [wholePart, Int.ediv_eq_zero_of_lt hexponent hlt, Int.toNat_zero]
  have hfraction : exponent.fraction = exponent := Fixed.ext (Int.emod_eq_of_lt hexponent hlt)
  rw [hwhole, hfraction, power_zero] at hcases
  rcases hcases with ⟨hzero, rfl⟩ | ⟨hexponent, f, hf, rfl⟩
  · rw [val_eq_zero hzero, Real.rpow_zero, val_one, one_mul]
    linarith [excess_nonneg hone]
  · rw [Fixed.one_mul]
    exact fractionalPower_le (val_pos.mpr hexponent) (val_lt_one.mpr hlt) hge hf

end WeightedMarket.Fixed
