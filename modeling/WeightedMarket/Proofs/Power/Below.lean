/-
  Powers of a base of at most one.

  A computed power may be too large by any amount that the precision allows, but it is too small by a
  few units only.  A base in [2/3, 1] needs no reduction, and its series is never too small.  A
  smaller base is doubled `j` times, and then what is short in its series is made up for by that of
  one half (`near_mul_half`); the roundings of the products are left.

  `powerUnits` counts the units that a power can be short by (`power_le_raise`).
-/
import WeightedMarket.Proofs.Power.Series
import WeightedMarket.Proofs.Power.Sign
import WeightedMarket.Proofs.Power.Surplus
import WeightedMarket.Proofs.Power.Whole

namespace WeightedMarket.Fixed

open Binomial Decision

variable {exponent : Fixed}

/-! ## The two series -/

theorem val_half : half.val = 1 / 2 := by
  norm_num [val, half, scale]

theorem abs_val_half_sub_one : |(half - one).val| = 1 / 2 := by
  rw [val_sub, val_half, val_one]
  norm_num

theorem abs_val_sub_one_of_le {base : Fixed} (h : base.val ≤ 1) :
    |(base - one).val| = 1 - base.val := by
  rw [val_sub, val_one, abs_of_nonpos (by linarith)]
  ring

theorem abs_val_sub_one_of_ge {base : Fixed} (h : 1 ≤ base.val) :
    |(base - one).val| = base.val - 1 := by
  rw [val_sub, val_one, abs_of_nonneg (by linarith)]

theorem raw_sub_one_nonpos {base : Fixed} (h : base.val ≤ 1) : (base - one).raw ≤ 0 :=
  Int.sub_nonpos_of_le (val_le_one.mp h)

theorem raw_sub_one_nonneg {base : Fixed} (h : 1 ≤ base.val) : 0 ≤ (base - one).raw := by
  rw [← Fixed.val_nonneg, val_sub, val_one]
  linarith

theorem val_powerPrecision : powerPrecision.val = 1 / 10 ^ 8 := by
  norm_num [val, powerPrecision, scale]

/-- A sum that the series of a base has stopped at. -/
structure Near (base exponent : Fixed) (n : ℕ) (total : Fixed) : Prop where
  total_eq : total = sumAt exponent (base - one) n
  stops : StopsAt exponent (base - one) powerPrecision n

/-- A series that answers has stopped at a partial sum. -/
theorem near_of_seriesPower {base total : Fixed} (hne : exponent.raw ≠ 0)
    (h : seriesPower base exponent powerPrecision maxTerms = .ok total) :
    ∃ n, Near base exponent n total := by
  rcases seriesPower_eq_ok h with ⟨hzero, _⟩ | ⟨_, n, heq, hstops⟩
  · exact absurd hzero hne
  · exact ⟨n, heq, hstops⟩

section

variable (hf0 : 0 < exponent.val) (hf1 : exponent.val < 1)

include hf0 hf1

/-- Up to one no sum is less than the power. -/
theorem power_le_sumAt {base : Fixed} (hpos : 0 < base.val) (hle : base.val ≤ 1) (n : ℕ) :
    base.val ^ exponent.val ≤ (sumAt exponent (base - one) n).val := by
  have hval := abs_val_sub_one_of_le hle
  have hsum := power_below_le_sumAt hf0 hf1 (raw_sub_one_nonpos hle) (by rw [hval]; linarith) n
  rwa [hval, sub_sub_cancel] at hsum

/-- Up to one such a sum lies above the exact power. -/
theorem Near.power_le_of_le_one {base total : Fixed} {n : ℕ} (h : Near base exponent n total)
    (hpos : 0 < base.val) (hle : base.val ≤ 1) : base.val ^ exponent.val ≤ total.val := by
  rw [h.total_eq]
  exact power_le_sumAt hf0 hf1 hpos hle n

/-- Within half of one such a sum is not negative. -/
theorem Near.val_nonneg {base total : Fixed} {n : ℕ} (h : Near base exponent n total)
    (hx : 2 * |(base - one).raw| ≤ scale) : 0 ≤ total.val := by
  have hterm := termAt_nonneg exponent (base - one) n
  have hsum := termAt_le_sumAt (val_pos.mp hf0).le (val_lt_one.mp hf1).le hx n
  rw [Fixed.val_nonneg, h.total_eq]
  exact hterm.trans hsum

theorem Near.val_le {base total : Fixed} {n : ℕ} (h : Near base exponent n total)
    (hx : 3 * |(base - one).raw| ≤ scale) : total.val ≤ 3 / 2 := by
  have hterm := val_termAt_nonneg exponent (base - one) n
  have hsum := two_mul_sumAt_le (val_pos.mp hf0).le (val_lt_one.mp hf1).le hx n
  have hval : 2 * total.val + (termAt exponent (base - one) n).val ≤ 3 := by
    rw [h.total_eq, val_eq_mul_ulp, val_eq_mul_ulp, ulp, mul_one_div, mul_one_div, ← mul_div_assoc,
      ← add_div, div_le_iff₀ scale_cast_pos]
    exact_mod_cast hsum
  linarith

/-- The power of the half is at most one. -/
theorem Near.val_half_le_one {halfPower : Fixed} {k : ℕ} (h : Near half exponent k halfPower) :
    halfPower.val ≤ 1 := by
  rw [h.total_eq]
  exact val_sumAt_le_one hf0 hf1 (by decide) k

/-- The sum for one half exceeds the power by at least its surplus. -/
theorem Near.add_surplus_le {halfPower : Fixed} {k : ℕ} (h : Near half exponent k halfPower) :
    (1 / 2) ^ exponent.val + surplus exponent.val k ≤ halfPower.val := by
  have hsum := surplus_le_sumAt (x := half - one) hf0 hf1 (by decide)
    (by rw [abs_val_half_sub_one]; norm_num) k
  rw [abs_val_half_sub_one, ← h.total_eq, show (1 : ℝ) - 1 / 2 = 1 / 2 by norm_num] at hsum
  rw [surplus]
  linarith

/-- Above one, if the last term was negative and there is a next one, the surplus of one half covers
it. -/
theorem Near.covers {base near halfPower : Fixed} {n k : ℕ} (hnear : Near base exponent n near)
    (hhalf : Near half exponent k halfPower) (hx : 3 * |(base - one).val| ≤ 1) (heven : Even n)
    (hnext : (termAt exponent (base - one) (n + 1)).raw ≠ 0) :
    Covers exponent.val (surplus exponent.val k)
      (exactTerm exponent.val |(base - one).val| (n + 1)) := by
  have hx0 : 0 ≤ |(base - one).val| := abs_nonneg _
  have hx3 : |(base - one).val| ≤ 1 / 3 := by linarith
  have hdistance : |(base - one).raw| ≤ |(half - one).raw| := by
    rw [← raw_abs, ← raw_abs, ← val_le_val, val_abs, val_abs, abs_val_half_sub_one]
    linarith
  have hnk : n ≤ k := hnear.stops.le_of_abs_le hdistance hhalf.stops hnext
  -- the sum has stopped at a small term, which is not the first
  have hsmall : termAt exponent (base - one) n < powerPrecision :=
    hnear.stops.stops.resolve_right hnext
  have htwo : 2 ≤ n := by
    obtain ⟨i, hi⟩ := heven
    rcases Nat.eq_zero_or_pos i with hzero | hpos
    · have hn : n = 0 := by omega
      rw [hn] at hsmall
      exact absurd (show one < powerPrecision from hsmall) (by decide)
    · omega
  rcases Nat.eq_or_lt_of_le hnk with rfl | hlt
  · exact covered_of_same hf0 hf1 hx0 hx3 htwo
  rcases Nat.lt_or_ge k 4 with hthree | hfour
  · obtain ⟨i, hi⟩ := heven
    have hn : n = 2 := by omega
    have hk : k = 3 := by omega
    rw [hn, hk]
    exact covered_of_third hf0 hf1 hx0 hx3
  · obtain ⟨k, rfl⟩ := Nat.exists_eq_add_of_le' (show 2 ≤ k by omega)
    obtain ⟨n, rfl⟩ := Nat.exists_eq_add_of_le' (show 1 ≤ n by omega)
    have hulp := ulp_eq
    have hprecision := val_powerPrecision
    refine covered_of_later hf0 hf1 hx0 hx3 (p := powerPrecision.val) (by omega) (by omega)
      (by rw [hprecision]; positivity) hprecision.le ?_ ?_
    · have hlarge := val_le_val.mpr (hhalf.stops.goesOn (k + 1) (by omega))
      have hterm := val_termAt_le exponent (half - one) (k + 1)
      rw [abs_val_half_sub_one] at hterm
      exact hlarge.trans hterm
    · have hterm := exactTerm_le_termAt hf0 hf1 hx (n + 1)
      have hless := (val_lt_val.mpr hsmall).le
      rw [hprecision] at hless ⊢
      rw [hulp] at hterm
      linarith

/-- Above one a sum is short by the rounding of at most seventeen terms, and by at most a shortfall that
the surplus of one half covers. -/
theorem Near.short_of_one_lt {base near halfPower : Fixed} {n k : ℕ} (hnear : Near base exponent n near)
    (hhalf : Near half exponent k halfPower) (hgt : 1 < base.val)
    (hraw : 3 * |(base - one).raw| ≤ scale) :
    ∃ shortfall, 0 ≤ shortfall ∧ Covers exponent.val (surplus exponent.val k) shortfall ∧
      base.val ^ exponent.val ≤ near.val + 119 / 2 * ulp + shortfall := by
  have hulp := ulp_pos
  have hx := mul_abs_val_le_one hraw
  have hnothing : Covers exponent.val (surplus exponent.val k) 0 := by
    rw [Covers, zero_mul]
    exact surplus_nonneg hf0 hf1 k
  have habove := raw_sub_one_nonneg hgt.le
  have hval : 1 + |(base - one).val| = base.val := by
    rw [abs_val_sub_one_of_ge hgt.le]
    ring
  have hcount : n ≤ 17 :=
    hnear.stops.le_seventeen (val_pos.mp hf0).le (val_lt_one.mp hf1).le hraw
  have hsum := power_above_le_sumAt hf0 hf1 habove hx n
  rw [hval, ← hnear.total_eq] at hsum
  rcases Nat.even_or_odd n with heven | hodd
  · rw [if_pos heven] at hsum
    have hsixteen : (n : ℝ) ≤ 16 := by
      obtain ⟨i, hi⟩ := heven
      exact_mod_cast (show n ≤ 16 by omega)
    have hterms : n * (7 / 2 * ulp) ≤ 16 * (7 / 2 * ulp) :=
      mul_le_mul_of_nonneg_right hsixteen (by linarith)
    by_cases hnext : (termAt exponent (base - one) (n + 1)).raw = 0
    · -- the next term is rounding itself
      have hterm := exactTerm_le_termAt hf0 hf1 hx (n + 1)
      rw [val_eq_zero hnext] at hterm
      exact ⟨0, le_refl 0, hnothing, by linarith⟩
    · have hcovers := hnear.covers hf0 hf1 hhalf hx heven hnext
      exact ⟨_, exactTerm_nonneg (abs_nonneg _) _, hcovers, by linarith⟩
  · rw [if_neg (Nat.not_even_iff_odd.mpr hodd), add_zero] at hsum
    have hseventeen : (n : ℝ) ≤ 17 := by exact_mod_cast hcount
    have hterms : n * (7 / 2 * ulp) ≤ 17 * (7 / 2 * ulp) :=
      mul_le_mul_of_nonneg_right hseventeen (by linarith)
    exact ⟨0, le_refl 0, hnothing, by linarith⟩

/-- **What the series of one half makes up for**: one factor of it is enough to cover what the other
series is short by, except for the rounding of its terms. -/
theorem near_mul_half {base near halfPower : Fixed} {n k : ℕ} (hnear : Near base exponent n near)
    (hhalf : Near half exponent k halfPower) (hpos : 0 < base.val)
    (hraw : 3 * |(base - one).raw| ≤ scale) :
    base.val ^ exponent.val * (1 / 2) ^ exponent.val ≤
      (near.val + 119 / 2 * ulp) * halfPower.val := by
  have hulp := ulp_pos
  have hsurplus := surplus_nonneg hf0 hf1 k
  have hadd := hhalf.add_surplus_le hf0 hf1
  have hchord : (0 : ℝ) ≤ (1 / 2) ^ exponent.val := Real.rpow_nonneg (by norm_num) _
  have hhalf0 : 0 ≤ halfPower.val := by linarith
  rcases le_or_gt base.val 1 with hle | hgt
  · have hpower := hnear.power_le_of_le_one hf0 hf1 hpos hle
    have hpower0 : 0 ≤ base.val ^ exponent.val := Real.rpow_nonneg hpos.le _
    exact mul_le_mul (by linarith) (by linarith) hchord (by linarith)
  · obtain ⟨shortfall, hshort0, hcovers, hshort⟩ := hnear.short_of_one_lt hf0 hf1 hhalf hgt hraw
    have hone : 1 ≤ base.val ^ exponent.val := Real.one_le_rpow hgt.le hf0.le
    have hgrown := mul_le_mul_of_nonneg_right hone hshort0
    calc base.val ^ exponent.val * (1 / 2) ^ exponent.val
        ≤ base.val ^ exponent.val * ((1 - shortfall) * halfPower.val) :=
          mul_le_mul_of_nonneg_left (hcovers.le_mul hsurplus hadd) (by linarith)
      _ = (base.val ^ exponent.val - base.val ^ exponent.val * shortfall) * halfPower.val := by ring
      _ ≤ (near.val + 119 / 2 * ulp) * halfPower.val :=
          mul_le_mul_of_nonneg_right (by linarith) hhalf0

end

/-! ## Fractional powers -/

/-- The units that the fractional power of a base can be short by. -/
def fractionUnits (base : Fixed) : Nat := if 2 * scale ≤ 3 * base.raw then 0 else 150

/-- How the fractional power of a base of at most one was computed: the base was doubled `j` times, and
the series of what it became is multiplied by as many powers of one half. -/
structure Doubled (base exponent power : Fixed) (j : ℕ) (near : Fixed) : Prop where
  shift_eq : (reduce base).shift = -(j : Int)
  base_eq : (reduce base).base.raw = base.raw * 2 ^ j
  near_eq : seriesPower (reduce base).base exponent powerPrecision maxTerms = .ok near
  power_eq : j = 0 ∧ power = near ∨ 0 < j ∧ ∃ halfPower,
    seriesPower half exponent powerPrecision maxTerms = .ok halfPower ∧
      power = near.mul (halfPower.power j)

/-- Every fractional power of a base of at most one was computed in this way. -/
theorem fractionalPower_eq_ok_of_le_one {base power : Fixed} (hpos : 0 < base.raw)
    (hle : base.raw ≤ scale) (h : base.fractionalPower exponent = .ok power) :
    ∃ j near, Doubled base exponent power j near := by
  rw [fractionalPower, bind_eq_ok] at h
  obtain ⟨near, hnear, h⟩ := h
  obtain ⟨j, hshift, hbase⟩ := reduce_of_le_one hpos hle
  refine ⟨j, near, hshift, hbase, hnear, ?_⟩
  rcases Nat.eq_zero_or_pos j with hzero | hj
  · rw [if_pos (by rw [hshift, hzero]; rfl), Decision.pure_eq_ok] at h
    exact .inl ⟨hzero, h.symm⟩
  · rw [if_neg (by omega), bind_eq_ok] at h
    obtain ⟨halfPower, hhalf, h⟩ := h
    rw [if_pos (by omega), Decision.pure_eq_ok, hshift, Int.natAbs_neg, Int.natAbs_natCast] at h
    exact .inr ⟨hj, halfPower, hhalf, h.symm⟩

/-- One half's power counts as often as the base was doubled, also if that is not at all. -/
theorem Doubled.eq_mul {base power near halfPower : Fixed} {j : ℕ}
    (h : Doubled base exponent power j near)
    (hhalf : seriesPower half exponent powerPrecision maxTerms = .ok halfPower) :
    power = near.mul (halfPower.power j) := by
  rcases h.power_eq with ⟨rfl, rfl⟩ | ⟨_, _, hhalf', rfl⟩
  · rw [power_zero, Fixed.mul_one]
  · cases hhalf.symm.trans hhalf'
    rfl

/-- Doubling stops after sixty times at the latest. -/
theorem shift_le_sixty {base : Fixed} {j : Nat} (hpos : 0 < base.raw)
    (h : 3 * (base.raw * 2 ^ j) < 4 * scale) : j ≤ 60 := by
  by_contra hlt
  have hpow : (2 : Int) ^ 61 ≤ 2 ^ j := pow_le_pow_right₀ (by decide) (by omega)
  have hbase : (1 : Int) * 2 ^ 61 ≤ base.raw * 2 ^ j :=
    Int.mul_le_mul hpos hpow (by decide) (Int.le_of_lt hpos)
  simp only [scale] at h
  omega

/-- The power of a base that was doubled `j` times is that of the doubled one, halved as often. -/
theorem val_rpow_of_doubled {base doubled : Fixed} {j : ℕ} (h0 : 0 ≤ base.raw)
    (h : doubled.raw = base.raw * 2 ^ j) (f : ℝ) :
    base.val ^ f = doubled.val ^ f * ((1 / 2) ^ f) ^ j := by
  have hdoubled : 0 ≤ doubled.val := by
    rw [val_nonneg, h]
    exact Int.mul_nonneg h0 (Int.pow_nonneg (by decide))
  have hval : base.val = doubled.val * (1 / 2) ^ j := by
    rw [val, val, h]
    push_cast
    rw [div_mul_eq_mul_div, mul_assoc, ← mul_pow]
    norm_num
  rw [hval, Real.mul_rpow hdoubled (by positivity), ← Real.rpow_natCast, ← Real.rpow_natCast,
    ← Real.rpow_mul (by norm_num), ← Real.rpow_mul (by norm_num), mul_comm f]

/-- The roundings of a product with a power of the half series: the power's own are magnified by
three halves at most. -/
theorem near_mul_power_le {near halfPower : Fixed} {j : ℕ} (hnear0 : 0 ≤ near.val)
    (hnear : near.val ≤ 3 / 2) (hhalf0 : 0 ≤ halfPower.val) (hhalf1 : halfPower.val ≤ 1)
    (hj : j ≤ 60) :
    (near.val + 119 / 2 * ulp) * halfPower.val ^ j ≤
      (near.mul (halfPower.power j)).val + 150 * ulp := by
  have hulp := ulp_pos
  have hpower := power_isPower hhalf0 hhalf1 j
  have hone : halfPower.val ^ j ≤ 1 := pow_le_one₀ hhalf0 hhalf1
  have hmargin := mul_le_mul_of_nonneg_left hone (show 0 ≤ 119 / 2 * ulp by linarith)
  have hgrown := mul_le_mul_of_nonneg_left hpower.ge hnear0
  -- at most fifty-nine roundings in the power, each magnified, and one in the product
  have hcount : ((j - 1 : Nat) : ℝ) * ulp ≤ 59 * ulp := by
    refine mul_le_mul_of_nonneg_right ?_ hulp.le
    exact_mod_cast (show j - 1 ≤ 59 by omega)
  have hmagnified : near.val * (((j - 1 : Nat) : ℝ) * ulp) ≤ 3 / 2 * (59 * ulp) :=
    mul_le_mul hnear hcount (mul_nonneg (Nat.cast_nonneg _) hulp.le) (by norm_num)
  have hproduct := (lt_val_mul near (halfPower.power j)).le
  rw [add_mul]
  linarith

section

variable (hf0 : 0 < exponent.val) (hf1 : exponent.val < 1)

include hf0 hf1

/-- A base that was doubled: one factor of the half series goes to the other series, and the rest
covers itself. -/
theorem power_le_of_doubled {base doubled near halfPower : Fixed} {n k j : ℕ}
    (hnear : Near doubled exponent n near) (hhalf : Near half exponent k halfPower)
    (hpos : 0 < base.raw) (hdoubled : doubled.raw = base.raw * 2 ^ j) (hj : 0 < j) (hj60 : j ≤ 60)
    (hraw : 3 * |(doubled - one).raw| ≤ scale) :
    base.val ^ exponent.val ≤ (near.mul (halfPower.power j)).val + 150 * ulp := by
  have hulp := ulp_pos
  have hval : 0 < doubled.val := by
    rw [val_pos, hdoubled]
    exact Int.mul_pos hpos (Int.pow_pos (by decide))
  have hcovered := near_mul_half hf0 hf1 hnear hhalf hval hraw
  have hnear0 := hnear.val_nonneg hf0 hf1 (two_mul_abs_le hraw)
  have hhalf0 := hhalf.val_nonneg hf0 hf1 (by decide)
  have hchord : ((1 : ℝ) / 2) ^ exponent.val ≤ halfPower.val := by
    have := hhalf.add_surplus_le hf0 hf1
    linarith [surplus_nonneg hf0 hf1 k]
  have hpositive : (0 : ℝ) ≤ (1 / 2) ^ exponent.val := Real.rpow_nonneg (by norm_num) _
  obtain ⟨i, rfl⟩ := Nat.exists_eq_add_of_le' hj
  have hrest := pow_le_pow_left₀ hpositive hchord i
  calc base.val ^ exponent.val
      = doubled.val ^ exponent.val * ((1 / 2) ^ exponent.val) ^ (i + 1) :=
        val_rpow_of_doubled hpos.le hdoubled _
    _ = doubled.val ^ exponent.val * (1 / 2) ^ exponent.val * ((1 / 2) ^ exponent.val) ^ i := by ring
    _ ≤ (near.val + 119 / 2 * ulp) * halfPower.val * halfPower.val ^ i :=
        mul_le_mul hcovered hrest (pow_nonneg hpositive i) (mul_nonneg (by linarith) hhalf0)
    _ = (near.val + 119 / 2 * ulp) * halfPower.val ^ (i + 1) := by ring
    _ ≤ (near.mul (halfPower.power (i + 1))).val + 150 * ulp :=
        near_mul_power_le hnear0 (hnear.val_le hf0 hf1 hraw) hhalf0
          (hhalf.val_half_le_one hf0 hf1) hj60

/-- **The fractional power** of a base of at most one is not short at all if the base is not
reduced, and by at most a hundred and fifty units if it is. -/
theorem power_le_fractionalPower {base power : Fixed} (hpos : 0 < base.raw) (hle : base.raw ≤ scale)
    (h : base.fractionalPower exponent = .ok power) :
    base.val ^ exponent.val ≤ power.val + base.fractionUnits * ulp := by
  have hne : exponent.raw ≠ 0 := (val_pos.mp hf0).ne'
  obtain ⟨j, near, hdoubled⟩ := fractionalPower_eq_ok_of_le_one hpos hle h
  have hbase := hdoubled.base_eq
  obtain ⟨n, hnear⟩ := near_of_seriesPower hne hdoubled.near_eq
  rcases hdoubled.power_eq with ⟨rfl, rfl⟩ | ⟨hj, halfPower, hhalf, rfl⟩
  · -- nothing is doubled, and the series alone answers
    have heq : (reduce base).base = base := Fixed.ext (by rw [hbase, Int.pow_zero, Int.mul_one])
    rw [heq] at hnear
    have hpower := hnear.power_le_of_le_one hf0 hf1 (val_pos.mpr hpos) (val_le_one.mpr hle)
    have hunits : 0 ≤ (base.fractionUnits : ℝ) * ulp := mul_nonneg (Nat.cast_nonneg _) ulp_pos.le
    linarith
  · obtain ⟨k, hhalf⟩ := near_of_seriesPower hne hhalf
    have hbounds := (reduce_base_bounds hpos).2
    rw [hbase] at hbounds
    -- a base that is doubled at all lies below two thirds
    have hunits : base.fractionUnits = 150 := by
      have hpow : (2 : Int) ^ 1 ≤ 2 ^ j := pow_le_pow_right₀ (by decide) hj
      have hdouble := Int.mul_le_mul_of_nonneg_left hpow (Int.le_of_lt hpos)
      rw [fractionUnits, if_neg (by omega)]
    rw [hunits]
    exact power_le_of_doubled hf0 hf1 hnear hhalf hpos hbase hj (shift_le_sixty hpos hbounds)
      (reduce_base_near hpos)

end

/-! ## Powers -/

/-- The units that a power can be short by. -/
def powerUnits (base exponent : Fixed) : Nat :=
  if exponent.fraction.raw = 0 then exponent.wholePart - 1 else exponent.wholePart + base.fractionUnits

/-- An exponent is its integer part and its fraction. -/
theorem val_eq_wholePart_add {exponent : Fixed} (h : 0 ≤ exponent.raw) :
    exponent.val = exponent.wholePart + exponent.fraction.val := by
  have hwhole : (exponent.wholePart : Int) = exponent.raw / scale :=
    Int.toNat_of_nonneg (Int.ediv_nonneg h (Int.le_of_lt scale_pos))
  have hraw : (exponent.raw : ℝ) = exponent.wholePart * scale + exponent.fraction.raw := by
    have := Int.ediv_mul_add_emod exponent.raw scale
    rw [← hwhole] at this
    exact_mod_cast this.symm
  rw [val, val, hraw, add_div, mul_div_cancel_right₀ _ scale_cast_pos.ne']

/-- **A power of a base of at most one** is short by at most its units. -/
theorem power_le_raise {base exponent power : Fixed} (hle : base.raw ≤ scale)
    (h : base.raise exponent = .ok power) :
    base.val ^ exponent.val ≤ power.val + powerUnits base exponent * ulp := by
  have hulp := ulp_pos
  obtain ⟨hpos, hexponent, hcases⟩ := raise_eq_ok h
  have hval0 : 0 < base.val := val_pos.mpr hpos
  have hval1 : base.val ≤ 1 := val_le_one.mpr hle
  have hwhole := power_isPower hval0.le hval1 exponent.wholePart
  rw [val_eq_wholePart_add hexponent, Real.rpow_add hval0, Real.rpow_natCast, powerUnits]
  rcases hcases with ⟨hzero, rfl⟩ | ⟨hfraction, f, hf, rfl⟩
  · rw [if_pos hzero, val_eq_zero hzero, Real.rpow_zero, mul_one]
    exact hwhole.ge
  have hf0 := val_pos.mpr hfraction
  have hshort := power_le_fractionalPower hf0 (val_lt_one.mpr exponent.fraction_lt) hpos hle hf
  have hpower0 : 0 ≤ base.val ^ exponent.fraction.val := Real.rpow_nonneg hval0.le _
  have hpower1 : base.val ^ exponent.fraction.val ≤ 1 := Real.rpow_le_one hval0.le hval1 hf0.le
  rw [if_neg hfraction.ne']
  rcases Nat.eq_zero_or_pos exponent.wholePart with hzero | hone
  · rw [hzero] at hwhole ⊢
    rw [hwhole.eq_one, Fixed.one_mul, pow_zero, one_mul, Nat.zero_add]
    exact hshort
  -- the units of both factors, neither of them magnified, and one for their product
  have hpredecessor : ((exponent.wholePart - 1 : Nat) : ℝ) + 1 = exponent.wholePart := by
    exact_mod_cast (show exponent.wholePart - 1 + 1 = exponent.wholePart by omega)
  have hwhole1 : (base.power exponent.wholePart).val ≤ 1 :=
    hwhole.le.trans (pow_le_one₀ hval0.le hval1)
  have hfirst := mul_le_mul_of_nonneg_right hwhole.ge hpower0
  have hsecond := mul_le_mul_of_nonneg_left hshort hwhole.nonneg
  have hthird : (exponent.wholePart - 1 : Nat) * ulp * base.val ^ exponent.fraction.val ≤
      (exponent.wholePart - 1 : Nat) * ulp :=
    mul_le_of_le_one_right (mul_nonneg (Nat.cast_nonneg _) hulp.le) hpower1
  have hfourth : (base.power exponent.wholePart).val * (base.fractionUnits * ulp) ≤
      base.fractionUnits * ulp :=
    mul_le_of_le_one_left (mul_nonneg (Nat.cast_nonneg _) hulp.le) hwhole1
  have hround := (lt_val_mul (base.power exponent.wholePart) f).le
  push_cast
  rw [← hpredecessor]
  linarith

end WeightedMarket.Fixed
