/-
  How accurate a power is.

  Too large a power is only by what the two series leave out, and that is a part of the power itself: one
  half's series is too large by 202 · 10⁻¹⁰ of it, sixty times over for the smallest base.

  Too small a power is differently so on the two sides of one.  Up to one the roundings count in units,
  one for each factor of the integer power and a fixed number for the fraction (`power_le_raise`), since
  nothing there magnifies them.  From one on they are magnified with the power, and every one is a part of
  it (`Lacks`): the power of two, a truncated reciprocal, is what lacks most, sixty-four times over for the
  largest base.

  Both come to 2 · 10⁻⁶ of the power, and the units to twice the integer part and two hundred
  (`raise_accuracy`).
-/
import WeightedMarket.Proofs.Power.Relative

namespace WeightedMarket.Fixed

variable {exponent base power near halfPower : Fixed} {j k n : ℕ}

/-! ## Halving -/

/-- Halving loses less than two units' part of what is left. -/
theorem Halved.val_le (h : Halved base exponent power j near) (hpos : 0 < base.raw) :
    base.val ≤ (reduce base).base.val * (1 + 2 * ulp) * 2 ^ j := by
  have hulp := ulp_pos
  have hraw : base.raw ≤ ((reduce base).base.raw + 1) * 2 ^ j := by
    rw [h.base_eq]
    exact (Int.lt_ediv_add_one_mul_self _ (Int.pow_pos (by decide))).le
  have hcast : (base.raw : ℝ) ≤ ((reduce base).base.raw + 1) * 2 ^ j := by exact_mod_cast hraw
  -- the unit that is lost is less than two units' part of two thirds
  have hgrown : (reduce base).base.val + ulp ≤ (reduce base).base.val * (1 + 2 * ulp) := by
    have := mul_le_mul_of_nonneg_right (two_thirds_le_val_reduce hpos) (show 0 ≤ 2 * ulp by linarith)
    linarith
  calc base.val = base.raw * ulp := val_eq_mul_ulp base
    _ ≤ ((reduce base).base.raw + 1) * 2 ^ j * ulp := mul_le_mul_of_nonneg_right hcast hulp.le
    _ = ((reduce base).base.val + ulp) * 2 ^ j := by
        rw [val_eq_mul_ulp (reduce base).base]
        ring
    _ ≤ (reduce base).base.val * (1 + 2 * ulp) * 2 ^ j :=
        mul_le_mul_of_nonneg_right hgrown (by positivity)

/-- A base below 2⁶⁴ is halved sixty-four times at most. -/
theorem Halved.le_sixtyFour (h : Halved base exponent power j near) (hpos : 0 < base.raw)
    (hlt : base.raw < 2 ^ 64 * scale) : j ≤ 64 := by
  by_contra hmore
  have hpow : (2 : Int) ^ 65 ≤ 2 ^ j := pow_le_pow_right₀ (by decide) (by omega)
  have hbounds := (reduce_base_bounds hpos).1
  have hback : base.raw / 2 ^ j * 2 ^ j ≤ base.raw := Int.ediv_mul_le _ (pow_ne_zero j (by decide))
  rw [h.base_eq] at hbounds
  have hscaled : 2 * scale * 2 ^ 65 ≤ 3 * (base.raw / 2 ^ j) * 2 ^ j :=
    Int.mul_le_mul hbounds hpow (by decide) (by have := scale_pos; omega)
  rw [Int.mul_assoc 3] at hscaled
  simp only [scale] at hscaled hlt
  omega

/-! ## Fractional powers -/

theorem half_le_rpow (hf1 : exponent.val < 1) : 1 / 2 ≤ (1 / 2 : ℝ) ^ exponent.val :=
  Real.self_le_rpow_of_le_one (by norm_num) (by norm_num) hf1.le

section

variable (hf0 : 0 < exponent.val) (hf1 : exponent.val < 1)

include hf0 hf1

theorem Near.half_pos (h : Near half exponent k halfPower) : 0 < halfPower.val := by
  have hpower := h.power_le_of_le_one hf0 hf1 (val_pos.mpr (by decide)) (val_le_one.mpr (by decide))
  rw [val_half] at hpower
  linarith [half_le_rpow hf1]

/-- What one half's series is too large by, as a part of the power. -/
theorem Near.half_le_mul (h : Near half exponent k halfPower) :
    halfPower.val ≤ (1 / 2) ^ exponent.val * (1 + 202 / 10 ^ 10) := by
  have hpower := half_le_rpow hf1
  have hsum := h.half_le hf0 hf1
  linarith

/-! ### Not too large -/

/-- **The fractional power of a base of at most one** is too large by 2 · 10⁻⁶ of it at most. -/
theorem fractionalPower_le_of_le_one (hpos : 0 < base.raw) (hle : base.raw ≤ scale)
    (h : base.fractionalPower exponent = .ok power) :
    power.val ≤ base.val ^ exponent.val * (1 + 2 / 10 ^ 6) := by
  have hne : exponent.raw ≠ 0 := (val_pos.mp hf0).ne'
  obtain ⟨j, near, hdoubled⟩ := fractionalPower_eq_ok_of_le_one hpos hle h
  obtain ⟨halfPower, hhalfEq, _⟩ :=
    exists_seriesPower (val_pos.mp hf0).le (val_lt_one.mp hf1).le
      (show 2 * |(half - one).raw| ≤ scale by decide)
  obtain ⟨n, hnear⟩ := near_of_seriesPower hne hdoubled.near_eq
  obtain ⟨k, hhalf⟩ := near_of_seriesPower hne hhalfEq
  have hbounds := (reduce_base_bounds hpos).2
  rw [hdoubled.base_eq] at hbounds
  have hj := shift_le_sixty hpos hbounds
  have hnear0 := hnear.val_nonneg hf0 hf1 (two_mul_abs_le (reduce_base_near hpos))
  have hhalf0 := hhalf.val_nonneg hf0 hf1 (by decide)
  have hreduced0 : 0 ≤ (reduce base).base.val ^ exponent.val :=
    Real.rpow_nonneg (by linarith [two_thirds_le_val_reduce hpos]) _
  have hbase0 : 0 ≤ base.val ^ exponent.val := Real.rpow_nonneg (val_pos.mpr hpos).le _
  -- sixty times over, what the series are too large by stays below the bound
  have hgrowth : (1 + 77 / 10 ^ 10 : ℝ) * (1 + 202 / 10 ^ 10) ^ j ≤ 1 + 2 / 10 ^ 6 := by
    have hmono : (1 + 202 / 10 ^ 10 : ℝ) ^ j ≤ (1 + 202 / 10 ^ 10) ^ 60 :=
      pow_le_pow_right₀ (by norm_num) hj
    have hsixty : (1 + 77 / 10 ^ 10 : ℝ) * (1 + 202 / 10 ^ 10) ^ 60 ≤ 1 + 2 / 10 ^ 6 := by norm_num
    linarith
  rw [hdoubled.eq_mul hhalfEq]
  calc (near.mul (halfPower.power j)).val
      ≤ near.val * (halfPower.power j).val :=
        val_mul_le hnear0 (val_nonneg.mpr (power_nonneg (val_nonneg.mp hhalf0) j))
    _ ≤ near.val * ((1 / 2) ^ exponent.val * (1 + 202 / 10 ^ 10)) ^ j :=
        mul_le_mul_of_nonneg_left ((power_le_pow hhalf0 j).trans
          (pow_le_pow_left₀ hhalf0 (hhalf.half_le_mul hf0 hf1) j)) hnear0
    _ ≤ (reduce base).base.val ^ exponent.val * (1 + 77 / 10 ^ 10) *
          ((1 / 2) ^ exponent.val * (1 + 202 / 10 ^ 10)) ^ j :=
        mul_le_mul_of_nonneg_right (near_reduce_le hf0 hf1 hnear hpos) (by positivity)
    _ = (reduce base).base.val ^ exponent.val * ((1 / 2) ^ exponent.val) ^ j *
          ((1 + 77 / 10 ^ 10) * (1 + 202 / 10 ^ 10) ^ j) := by ring
    _ = base.val ^ exponent.val * ((1 + 77 / 10 ^ 10) * (1 + 202 / 10 ^ 10) ^ j) := by
        rw [val_rpow_of_doubled hpos.le hdoubled.base_eq]
    _ ≤ base.val ^ exponent.val * (1 + 2 / 10 ^ 6) := mul_le_mul_of_nonneg_left hgrowth hbase0

/-! ### Not too small -/

/-- A reduced base's series lacks a third of its precision at most. -/
theorem near_lacks (h : Near (reduce base).base exponent n near) (hpos : 0 < base.raw) :
    Lacks (34 / 10 ^ 10) ((reduce base).base.val ^ exponent.val) near.val := by
  have hreduced := two_thirds_le_val_reduce hpos
  have hx := reduce_base_near hpos
  rcases le_total (reduce base).base.val 1 with hle | hge
  · refine .of_le (Real.rpow_nonneg (by linarith) _) (by norm_num) ?_
    exact h.power_le_of_le_one hf0 hf1 (by linarith) hle
  · refine .of_le_add (Real.one_le_rpow hge hf0.le) (by norm_num) ?_ ?_
    · exact h.val_nonneg hf0 hf1 (two_mul_abs_le hx)
    · exact h.power_le_of_one_le hf0 hf1 hge hx

theorem one_le_val_quo_half (h : Near half exponent k halfPower) : 1 ≤ (one.quo halfPower).val := by
  rw [one_le_val]
  exact scale_le_raw_quo (val_pos.mp (h.half_pos hf0 hf1)) (val_le_one.mp (h.val_half_le_one hf0 hf1))

/-- **The power of two** lacks what one half's series is too large by, and the rounding of the
reciprocal. -/
theorem two_lacks (h : Near half exponent k halfPower) :
    Lacks (203 / 10 ^ 10) (2 ^ exponent.val) (one.quo halfPower).val := by
  have hulp := ulp_eq
  have hone := one_le_val_quo_half hf0 hf1 h
  have hpos := h.half_pos hf0 hf1
  have hsum := h.half_le_mul hf0 hf1
  have htwo : (2 : ℝ) ^ exponent.val * (1 / 2) ^ exponent.val = 1 := by
    rw [← Real.mul_rpow (by norm_num) (by norm_num), mul_one_div_cancel (by norm_num), Real.one_rpow]
  have hexact : Lacks (202 / 10 ^ 10) (2 ^ exponent.val) (1 / halfPower.val) := by
    refine ⟨by positivity, ?_⟩
    rw [le_div_iff₀ hpos]
    have htwo0 : (0 : ℝ) ≤ 2 ^ exponent.val := by positivity
    calc (2 : ℝ) ^ exponent.val * (1 - 202 / 10 ^ 10) * halfPower.val
        ≤ 2 ^ exponent.val * (1 - 202 / 10 ^ 10) * ((1 / 2) ^ exponent.val * (1 + 202 / 10 ^ 10)) :=
          mul_le_mul_of_nonneg_left hsum (mul_nonneg htwo0 (by norm_num))
      _ = 2 ^ exponent.val * (1 / 2) ^ exponent.val * ((1 - 202 / 10 ^ 10) * (1 + 202 / 10 ^ 10)) := by
          ring
      _ ≤ 1 := by
          rw [htwo]
          norm_num
  have hrounded := lacks_quo (a := one) (by simp) hpos hone
  rw [val_one] at hrounded
  refine (hexact.trans (by positivity) (by norm_num) ulp_pos.le hrounded).mono (by positivity) ?_
  rw [hulp]
  norm_num

/-- The power of what was halved, with the powers of two, lacks two units' part. -/
theorem Halved.rpow_lacks (h : Halved base exponent power j near) (hpos : 0 < base.raw) :
    Lacks (2 * ulp) (base.val ^ exponent.val)
      ((reduce base).base.val ^ exponent.val * (2 ^ exponent.val) ^ j) := by
  have hulp := ulp_pos
  have hsmall : 2 * ulp ≤ 1 := by
    rw [ulp_eq]
    norm_num
  have hreduced := two_thirds_le_val_reduce hpos
  have hreduced0 : 0 ≤ (reduce base).base.val ^ exponent.val := Real.rpow_nonneg (by linarith) _
  have hfactor : (1 + 2 * ulp) ^ exponent.val ≤ 1 + 2 * ulp :=
    Real.rpow_le_self_of_one_le (by linarith) hf1.le
  have hpower : base.val ^ exponent.val ≤
      (reduce base).base.val ^ exponent.val * (2 ^ exponent.val) ^ j * (1 + 2 * ulp) := by
    calc base.val ^ exponent.val
        ≤ ((reduce base).base.val * (1 + 2 * ulp) * 2 ^ j) ^ exponent.val :=
          Real.rpow_le_rpow (val_pos.mpr hpos).le (h.val_le hpos) hf0.le
      _ = (reduce base).base.val ^ exponent.val * (1 + 2 * ulp) ^ exponent.val * (2 ^ exponent.val) ^ j := by
          rw [Real.mul_rpow (by positivity) (by positivity), Real.mul_rpow (by linarith) (by positivity),
            ← Real.rpow_natCast, ← Real.rpow_natCast, ← Real.rpow_mul (by norm_num),
            ← Real.rpow_mul (by norm_num), mul_comm (j : ℝ)]
      _ ≤ (reduce base).base.val ^ exponent.val * (1 + 2 * ulp) * (2 ^ exponent.val) ^ j :=
          mul_le_mul_of_nonneg_right (mul_le_mul_of_nonneg_left hfactor hreduced0) (by positivity)
      _ = (reduce base).base.val ^ exponent.val * (2 ^ exponent.val) ^ j * (1 + 2 * ulp) := by ring
  have hkept : (1 + 2 * ulp) * (1 - 2 * ulp) ≤ 1 := by
    have := mul_self_nonneg (2 * ulp)
    linarith
  constructor
  · positivity
  · calc base.val ^ exponent.val * (1 - 2 * ulp)
        ≤ (reduce base).base.val ^ exponent.val * (2 ^ exponent.val) ^ j * (1 + 2 * ulp) * (1 - 2 * ulp) :=
          mul_le_mul_of_nonneg_right hpower (by linarith)
      _ = (reduce base).base.val ^ exponent.val * (2 ^ exponent.val) ^ j *
            ((1 + 2 * ulp) * (1 - 2 * ulp)) := by ring
      _ ≤ (reduce base).base.val ^ exponent.val * (2 ^ exponent.val) ^ j :=
          mul_le_of_le_one_right (by positivity) hkept

/-- **The fractional power of a base of at least one** lacks 14 · 10⁻⁷ of it at most. -/
theorem fractionalPower_lacks (hge : scale ≤ base.raw) (hlt : base.raw < 2 ^ 64 * scale)
    (h : base.fractionalPower exponent = .ok power) :
    Lacks (14 / 10 ^ 7) (base.val ^ exponent.val) power.val := by
  have hulp := ulp_eq
  have hulp0 := ulp_pos
  have hne : exponent.raw ≠ 0 := (val_pos.mp hf0).ne'
  have hpos : 0 < base.raw := Int.lt_of_lt_of_le scale_pos hge
  have hone := one_le_val.mpr (scale_le_fractionalPower (val_pos.mp hf0) (val_lt_one.mp hf1) hge h)
  obtain ⟨j, near, hhalved⟩ := fractionalPower_eq_ok_of_two_thirds_le (by omega) h
  obtain ⟨n, hnear⟩ := near_of_seriesPower hne hhalved.near_eq
  have hbase0 : 0 ≤ base.val ^ exponent.val := Real.rpow_nonneg (val_pos.mpr hpos).le _
  have hreduced0 : 0 ≤ (reduce base).base.val ^ exponent.val :=
    Real.rpow_nonneg (by linarith [two_thirds_le_val_reduce hpos]) _
  have hhalving := hhalved.rpow_lacks hf0 hf1 hpos
  have hnearLacks := near_lacks hf0 hf1 hnear hpos
  rcases hhalved.power_eq with ⟨rfl, rfl⟩ | ⟨_, halfPower, hhalfEq, rfl⟩
  · -- nothing is halved, and the series alone answers
    rw [pow_zero, mul_one] at hhalving
    refine (hhalving.trans hbase0 (by linarith) (by norm_num) hnearLacks).mono hbase0 ?_
    rw [hulp]
    norm_num
  obtain ⟨k, hhalf⟩ := near_of_seriesPower hne hhalfEq
  have htwo := two_lacks hf0 hf1 hhalf
  have hquo := one_le_val_quo_half hf0 hf1 hhalf
  -- the powers of two, each short by itself, and the roundings of their product
  have hpowers : Lacks (j * (203 / 10 ^ 10) + 2 * j * ulp) ((2 ^ exponent.val) ^ j)
      ((one.quo halfPower).power j).val :=
    (htwo.pow (by positivity) (by norm_num) j).trans (by positivity) (by positivity) (by positivity)
      (power_lacks hquo j)
  have hproduct := hnearLacks.mul hreduced0 (by positivity) (by norm_num) (by positivity) hpowers
  have hexact := hhalving.trans hbase0 (by linarith) (by positivity) hproduct
  have hrounded := lacks_mul hnearLacks.nonneg hpowers.nonneg hone
  refine (hexact.trans hbase0 (by positivity) hulp0.le hrounded).mono hbase0 ?_
  have hj : (j : ℝ) ≤ 64 := by exact_mod_cast hhalved.le_sixtyFour hpos hlt
  rw [hulp]
  linarith

end

/-! ## Powers -/

/-- **No power is too large** by more than 2 · 10⁻⁶ of it. -/
theorem raise_le_mul (h : base.raise exponent = .ok power) :
    power.val ≤ base.val ^ exponent.val * (1 + 2 / 10 ^ 6) := by
  obtain ⟨hpos, hexponent, hcases⟩ := raise_eq_ok h
  have hval0 : 0 < base.val := val_pos.mpr hpos
  have hwhole := power_le_pow hval0.le exponent.wholePart
  have hpow0 : 0 ≤ base.val ^ exponent.wholePart := pow_nonneg hval0.le _
  rw [val_eq_wholePart_add hexponent, Real.rpow_add hval0, Real.rpow_natCast]
  rcases hcases with ⟨hzero, rfl⟩ | ⟨hfraction, f, hf, rfl⟩
  · rw [val_eq_zero hzero, Real.rpow_zero, mul_one]
    linarith
  have hf0 := val_pos.mpr hfraction
  have hf1 := val_lt_one.mpr exponent.fraction_lt
  have hpower0 : 0 ≤ base.val ^ exponent.fraction.val := Real.rpow_nonneg hval0.le _
  have hfractional : f.val ≤ base.val ^ exponent.fraction.val * (1 + 2 / 10 ^ 6) := by
    rcases Int.le_total base.raw scale with hle | hge
    · exact fractionalPower_le_of_le_one hf0 hf1 hpos hle hf
    · refine (fractionalPower_le hf0 hf1 hge hf).trans (mul_le_mul_of_nonneg_left ?_ hpower0)
      have hexcess : excess base.val ≤ 1 / 10 ^ 8 := min_le_left _ _
      linarith
  have hf0' : 0 ≤ f.val :=
    val_nonneg.mpr (fractionalPower_nonneg hpos hfraction.le exponent.fraction_lt.le hf)
  calc ((base.power exponent.wholePart).mul f).val
      ≤ (base.power exponent.wholePart).val * f.val :=
        val_mul_le (val_nonneg.mpr (power_nonneg hpos.le _)) hf0'
    _ ≤ base.val ^ exponent.wholePart * (base.val ^ exponent.fraction.val * (1 + 2 / 10 ^ 6)) :=
        mul_le_mul hwhole hfractional hf0' hpow0
    _ = base.val ^ exponent.wholePart * base.val ^ exponent.fraction.val * (1 + 2 / 10 ^ 6) := by ring

/-- **A power of a base of at least one** lacks 2 · 10⁻⁶ of it at most. -/
theorem raise_lacks (hge : scale ≤ base.raw) (hlt : base.raw < 2 ^ 64 * scale)
    (hwhole : exponent.wholePart ≤ 1000) (h : base.raise exponent = .ok power) :
    Lacks (2 / 10 ^ 6) (base.val ^ exponent.val) power.val := by
  have hulp := ulp_eq
  have hulp0 := ulp_pos
  have hone := one_le_val.mpr (scale_le_raise hge h)
  obtain ⟨hpos, hexponent, hcases⟩ := raise_eq_ok h
  have hval0 : 0 < base.val := val_pos.mpr hpos
  have hcount : (exponent.wholePart : ℝ) ≤ 1000 := by exact_mod_cast hwhole
  have hpower := power_lacks (one_le_val.mpr hge) exponent.wholePart
  rw [val_eq_wholePart_add hexponent, Real.rpow_add hval0, Real.rpow_natCast]
  rcases hcases with ⟨hzero, rfl⟩ | ⟨hfraction, f, hf, rfl⟩
  · rw [val_eq_zero hzero, Real.rpow_zero, mul_one]
    refine hpower.mono (by positivity) ?_
    rw [hulp]
    linarith
  have hfractional := fractionalPower_lacks (val_pos.mpr hfraction) (val_lt_one.mpr exponent.fraction_lt)
    hge hlt hf
  have hexact := hpower.mul (by positivity) (Real.rpow_nonneg hval0.le _) (by positivity) (by norm_num)
    hfractional
  have hrounded := lacks_mul hpower.nonneg hfractional.nonneg hone
  refine (hexact.trans (by positivity) (by positivity) hulp0.le hrounded).mono (by positivity) ?_
  rw [hulp]
  linarith

theorem powerUnits_le (base exponent : Fixed) : powerUnits base exponent ≤ exponent.wholePart + 150 := by
  have hfraction : base.fractionUnits ≤ 150 := by
    unfold fractionUnits
    split <;> omega
  unfold powerUnits
  split <;> omega

/-- **How accurate a power is.**  A positive base below 2⁶⁴ and an exponent whose integer part is at most
a thousand have a power that differs from the exact one by at most 2 · 10⁻⁶ of it and twice the integer
part and two hundred units of the last place. -/
theorem raise_accuracy (base exponent : Fixed) (hpos : 0 < base.raw) (hlt : base.val < 2 ^ 64)
    (hexponent : 0 ≤ exponent.raw) (hwhole : exponent.wholePart ≤ 1000) :
    ∃ power, base.raise exponent = .ok power ∧
      |power.val - base.val ^ exponent.val| ≤
        2 / 10 ^ 6 * base.val ^ exponent.val + (2 * exponent.wholePart + 200) / 10 ^ 18 := by
  have hraw : base.raw < 2 ^ 64 * scale := by
    rw [val, div_lt_iff₀ scale_cast_pos] at hlt
    exact_mod_cast hlt
  obtain ⟨power, h⟩ := exists_raise hpos hexponent
  refine ⟨power, h, ?_⟩
  have hupper := raise_le_mul h
  have hcount : (0 : ℝ) ≤ exponent.wholePart := Nat.cast_nonneg _
  rw [abs_le]
  constructor
  · rcases Int.le_total base.raw scale with hle | hge
    · have hlower := power_le_raise hle h
      have hunits := powerUnits_le base exponent
      have hcast : (powerUnits base exponent : ℝ) ≤ exponent.wholePart + 150 := by exact_mod_cast hunits
      have hpower0 : 0 ≤ base.val ^ exponent.val := Real.rpow_nonneg (val_pos.mpr hpos).le _
      rw [ulp_eq] at hlower
      linarith
    · have hlower := (raise_lacks hge hraw hwhole h).le
      linarith
  · linarith

/-- The square root of the smallest base, which is doubled most often. -/
theorem raise_accuracy_of_smallest : ∃ power, raise ⟨1⟩ half = .ok power ∧
    |power.val - (⟨1⟩ : Fixed).val ^ half.val| ≤
      2 / 10 ^ 6 * (⟨1⟩ : Fixed).val ^ half.val + (2 * half.wholePart + 200) / 10 ^ 18 := by
  have hlt : (⟨1⟩ : Fixed).val < 2 ^ 64 := by
    rw [val]
    norm_num [scale]
  exact raise_accuracy ⟨1⟩ half (by decide) hlt (by decide) (by decide)

end WeightedMarket.Fixed
