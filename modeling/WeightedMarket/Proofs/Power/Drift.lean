/-
  How far powers keep the order of their bases.

  Up to one an exact power grows with its base, and so does a computed one wherever both bases are
  doubled equally often and to at most one, or the exponent is whole (`raise_le_raise`).  Elsewhere
  the order can break: a reduced base above one loses a whole term where its series goes on by one,
  and where a base is doubled once more its power takes in the error of one half's.  What a smaller
  base's power can exceed the other's by is bounded by both series' errors, less than 1.9 · 10⁻⁸
  together (`raise_le_add`).
-/
import WeightedMarket.Proofs.Power.Excess

namespace WeightedMarket.Fixed

open Binomial

variable {exponent base base' power power' near near' : Fixed} {j j' : ℕ}

/-! ## Doubling -/

/-- A smaller base is doubled at least as often. -/
theorem doublings_le (h : base'.raw ≤ base.raw) (hlt : 3 * (base.raw * 2 ^ j) < 4 * scale)
    (hle : 2 * scale ≤ 3 * (base'.raw * 2 ^ j')) : j ≤ j' := by
  by_contra hmore
  have hpow0 : (0 : Int) ≤ 2 ^ j' := Int.pow_nonneg (by decide)
  have hpow : (2 : Int) ^ (j' + 1) ≤ 2 ^ j := pow_le_pow_right₀ (by decide) (by omega)
  have hscale := scale_pos
  have hsmaller : base'.raw * 2 ^ j' ≤ base.raw * 2 ^ j' := Int.mul_le_mul_of_nonneg_right h hpow0
  have hbase : 0 ≤ base.raw := by
    by_contra hneg
    have := Int.mul_nonpos_of_nonpos_of_nonneg (show base.raw ≤ 0 by omega) hpow0
    omega
  have hlarger : base.raw * 2 ^ (j' + 1) ≤ base.raw * 2 ^ j := Int.mul_le_mul_of_nonneg_left hpow hbase
  rw [Int.pow_succ, ← Int.mul_assoc] at hlarger
  omega

/-- Two bases whose powers keep their order: the exponent is whole, or both are doubled equally often,
and to at most one. -/
def Aligned (exponent base base' : Fixed) : Prop :=
  exponent.fraction.raw = 0 ∨
    (reduce base').shift = (reduce base).shift ∧ (reduce base).base.raw ≤ scale

/-- Bases from two thirds to one are not doubled at all, and so are aligned. -/
theorem aligned_of_two_thirds_le (hbase : base'.raw ≤ base.raw) (hle : base.raw ≤ scale)
    (hthird : 2 * scale ≤ 3 * base'.raw) : Aligned exponent base base' := by
  have hscale := scale_pos
  obtain ⟨i, hshift, _⟩ := reduce_of_two_thirds_le (show 2 * scale ≤ 3 * base.raw by omega)
  obtain ⟨i', hshift', _⟩ := reduce_of_two_thirds_le hthird
  obtain ⟨j, hdoubled, hreduced⟩ := reduce_of_le_one (show 0 < base.raw by omega) hle
  obtain ⟨j', hdoubled', _⟩ := reduce_of_le_one (show 0 < base'.raw by omega) (by omega)
  have hj : j = 0 := by omega
  rw [hj, Int.pow_zero, Int.mul_one] at hreduced
  exact .inr ⟨by omega, by omega⟩

section

variable (hf0 : 0 < exponent.val) (hf1 : exponent.val < 1)

include hf0 hf1

/-- **Doubled equally often, to at most one**, powers keep the order. -/
theorem Doubled.le_of_le_one (h : Doubled base exponent power j near)
    (h' : Doubled base' exponent power' j near') (hbase : base'.raw ≤ base.raw)
    (hpos : 0 < base'.raw) (hle : (reduce base).base.raw ≤ scale) : power'.raw ≤ power.raw := by
  have h0 := (val_pos.mp hf0).le
  have h1 := val_lt_one.mp hf1
  have hreduced : (reduce base').base.raw ≤ (reduce base).base.raw := by
    rw [h.base_eq, h'.base_eq]
    exact Int.mul_le_mul_of_nonneg_right hbase (Int.pow_nonneg (by decide))
  have hnear := seriesPower_le_seriesPower h0 h1 hreduced hle h'.near_eq h.near_eq
  rcases h'.power_eq with ⟨rfl, rfl⟩ | ⟨hj, halfPower, hhalf, rfl⟩
  · rcases h.power_eq with ⟨_, rfl⟩ | ⟨hj, _⟩
    · exact hnear
    · exact absurd hj (Nat.lt_irrefl 0)
  · have hx := reduce_base_near hpos
    have hnear0 := seriesPower_nonneg h0 h1.le (two_mul_abs_le hx) h'.near_eq
    have hhalf0 := seriesPower_nonneg h0 h1.le (by decide) hhalf
    rw [h.eq_mul hhalf]
    exact raw_mul_le_raw_mul hnear0 (power_nonneg hhalf0 j) hnear (Int.le_refl _)

/-- A series above one may be too small, and that of a smaller base too large. -/
theorem near_le_add {doubled doubled' : Fixed} {n n' : ℕ} (hnear : Near doubled exponent n near)
    (hnear' : Near doubled' exponent n' near') (h0 : 0 ≤ doubled'.val)
    (hle : doubled'.val ≤ doubled.val) (hone : 1 ≤ doubled.val)
    (hx : 3 * |(doubled - one).raw| ≤ scale) (hx' : 3 * |(doubled' - one).raw| ≤ scale) :
    near'.val ≤ near.val + 85 / 10 ^ 10 := by
  calc near'.val ≤ doubled'.val ^ exponent.val + 51 / 10 ^ 10 := hnear'.le_power_add hf0 hf1 hx'
    _ ≤ doubled.val ^ exponent.val + 51 / 10 ^ 10 := by
        linarith [Real.rpow_le_rpow h0 hle hf0.le]
    _ ≤ near.val + 85 / 10 ^ 10 := by
        linarith [hnear.power_le_of_one_le hf0 hf1 hone hx]

/-- Doubled equally often, to more than one, powers keep the order but for both series' errors. -/
theorem Doubled.le_add_of_same (h : Doubled base exponent power j near)
    (h' : Doubled base' exponent power' j near') (hbase : base'.raw ≤ base.raw)
    (hpos : 0 < base'.raw) (hgt : scale < (reduce base).base.raw) (hle : base.raw ≤ scale) :
    power'.val ≤ power.val + 86 / 10 ^ 10 := by
  have hne : exponent.raw ≠ 0 := (val_pos.mp hf0).ne'
  have hulp := ulp_eq
  have hx := reduce_base_near (show 0 < base.raw by omega)
  have hx' := reduce_base_near hpos
  obtain ⟨n, hnear⟩ := near_of_seriesPower hne h.near_eq
  obtain ⟨n', hnear'⟩ := near_of_seriesPower hne h'.near_eq
  have hnear0' := hnear'.val_nonneg hf0 hf1 (two_mul_abs_le hx')
  have hreduced0 : 0 ≤ (reduce base').base.val := by
    have := (reduce_base_bounds hpos).1
    have := scale_pos
    rw [val_nonneg]
    omega
  have hreduced : (reduce base').base.val ≤ (reduce base).base.val := by
    rw [val_le_val, h.base_eq, h'.base_eq]
    exact Int.mul_le_mul_of_nonneg_right hbase (Int.pow_nonneg (by decide))
  have hseries : near'.val ≤ near.val + 85 / 10 ^ 10 :=
    near_le_add hf0 hf1 hnear hnear' hreduced0 hreduced (one_le_val.mpr hgt.le) hx hx'
  -- an undoubled base is not above one, so that both series are multiplied
  have hj : j ≠ 0 := by
    rintro rfl
    have hundoubled := h.base_eq
    rw [Int.pow_zero, Int.mul_one] at hundoubled
    omega
  obtain ⟨_, halfPower, hhalfEq, hpower'⟩ := h'.power_eq.resolve_left (by omega)
  obtain ⟨k, hhalf⟩ := near_of_seriesPower hne hhalfEq
  have hhalf0 := hhalf.val_nonneg hf0 hf1 (by decide)
  have hhalf1 := hhalf.val_half_le_one hf0 hf1
  have hfactor := power_isPower hhalf0 hhalf1 j
  have hfactor1 : (halfPower.power j).val ≤ 1 := hfactor.le.trans (pow_le_one₀ hhalf0 hhalf1)
  have hround := lt_val_mul near (halfPower.power j)
  rw [h.eq_mul hhalfEq, hpower']
  calc (near'.mul (halfPower.power j)).val ≤ near'.val * (halfPower.power j).val :=
        val_mul_le hnear0' hfactor.nonneg
    _ ≤ (near.val + 85 / 10 ^ 10) * (halfPower.power j).val :=
        mul_le_mul_of_nonneg_right hseries hfactor.nonneg
    _ ≤ (near.mul (halfPower.power j)).val + 86 / 10 ^ 10 := by
        rw [hulp] at hround
        linarith

/-- One half's series makes up for the doubling, but for both errors. -/
theorem near_mul_half_le {doubled doubled' halfPower : Fixed} {n n' k : ℕ}
    (hnear : Near doubled exponent n near) (hnear' : Near doubled' exponent n' near')
    (hhalf : Near half exponent k halfPower) (hx : 3 * |(doubled - one).raw| ≤ scale)
    (hx' : 3 * |(doubled' - one).raw| ≤ scale) :
    near'.val * halfPower.val ≤ near.val + 186 / 10 ^ 10 := by
  have hthird := mul_abs_val_le_one hx
  have hthird' := mul_abs_val_le_one hx'
  rw [val_sub, val_one] at hthird hthird'
  push_cast at hthird hthird'
  have hbounds := abs_le.mp (show |doubled.val - 1| ≤ 1 / 3 by linarith)
  have hbounds' := abs_le.mp (show |doubled'.val - 1| ≤ 1 / 3 by linarith)
  have hhalf0 := hhalf.val_nonneg hf0 hf1 (by decide)
  have hhalf1 := hhalf.val_half_le_one hf0 hf1
  have hpower0 : 0 ≤ doubled'.val ^ exponent.val := Real.rpow_nonneg (by linarith) _
  have hpower : doubled'.val ^ exponent.val ≤ 4 / 3 := by
    calc doubled'.val ^ exponent.val ≤ (4 / 3) ^ exponent.val :=
          Real.rpow_le_rpow (by linarith) (by linarith) hf0.le
      _ ≤ (4 / 3) ^ (1 : ℝ) := Real.rpow_le_rpow_of_exponent_le (by norm_num) hf1.le
      _ = 4 / 3 := Real.rpow_one _
  -- half of a reduced base is at most any other
  have hexact : doubled'.val ^ exponent.val * (1 / 2) ^ exponent.val ≤ near.val := by
    rw [← Real.mul_rpow (by linarith) (by norm_num)]
    rcases le_total doubled.val 1 with hle | hge
    · exact (Real.rpow_le_rpow (by linarith) (by linarith) hf0.le).trans
        (hnear.power_le_of_le_one hf0 hf1 (by linarith) hle)
    · exact (Real.rpow_le_one (by linarith) (by linarith) hf0.le).trans
        (hnear.one_le_of_one_le hf0 hf1 hge hx)
  calc near'.val * halfPower.val
      ≤ (doubled'.val ^ exponent.val + 51 / 10 ^ 10) * halfPower.val :=
        mul_le_mul_of_nonneg_right (hnear'.le_power_add hf0 hf1 hx') hhalf0
    _ ≤ doubled'.val ^ exponent.val * halfPower.val + 51 / 10 ^ 10 := by linarith
    _ ≤ doubled'.val ^ exponent.val * ((1 / 2) ^ exponent.val + 101 / 10 ^ 10) + 51 / 10 ^ 10 := by
        linarith [mul_le_mul_of_nonneg_left (hhalf.half_le hf0 hf1) hpower0]
    _ ≤ near.val + 186 / 10 ^ 10 := by linarith

/-- A base that is doubled more often: one half's power takes part in its power once more. -/
theorem Doubled.le_add_of_lt (h : Doubled base exponent power j near)
    (h' : Doubled base' exponent power' j' near') (hpos : 0 < base.raw) (hpos' : 0 < base'.raw)
    (hlt : j < j') : power'.val ≤ power.val + 187 / 10 ^ 10 := by
  have hne : exponent.raw ≠ 0 := (val_pos.mp hf0).ne'
  have hulp := ulp_eq
  have hx := reduce_base_near hpos
  have hx' := reduce_base_near hpos'
  obtain ⟨n, hnear⟩ := near_of_seriesPower hne h.near_eq
  obtain ⟨n', hnear'⟩ := near_of_seriesPower hne h'.near_eq
  obtain ⟨_, halfPower, hhalfEq, hpower'⟩ := h'.power_eq.resolve_left (by omega)
  obtain ⟨k, hhalf⟩ := near_of_seriesPower hne hhalfEq
  have hnear0 := hnear.val_nonneg hf0 hf1 (two_mul_abs_le hx)
  have hnear0' := hnear'.val_nonneg hf0 hf1 (two_mul_abs_le hx')
  have hhalf0 := hhalf.val_nonneg hf0 hf1 (by decide)
  have hhalf1 := hhalf.val_half_le_one hf0 hf1
  have hfactor' := power_isPower hhalf0 hhalf1 j'
  have hbounds := (reduce_base_bounds hpos).2
  rw [h.base_eq] at hbounds
  have hround := near_mul_power_le hnear0 (hnear.val_le hf0 hf1 hx) hhalf0 hhalf1
    (shift_le_sixty hpos hbounds)
  obtain ⟨i, rfl⟩ := Nat.exists_eq_add_of_lt hlt
  have hfewer : halfPower.val ^ (j + i) ≤ halfPower.val ^ j :=
    pow_le_pow_of_le_one hhalf0 hhalf1 (Nat.le_add_right j i)
  have hfactor0 := pow_nonneg hhalf0 j
  have hfactor1 : halfPower.val ^ j ≤ 1 := pow_le_one₀ hhalf0 hhalf1
  rw [h.eq_mul hhalfEq, hpower']
  calc (near'.mul (halfPower.power (j + i + 1))).val
      ≤ near'.val * halfPower.val ^ (j + i + 1) :=
        (val_mul_le hnear0' hfactor'.nonneg).trans (mul_le_mul_of_nonneg_left hfactor'.le hnear0')
    _ = near'.val * halfPower.val * halfPower.val ^ (j + i) := by ring
    _ ≤ near'.val * halfPower.val * halfPower.val ^ j :=
        mul_le_mul_of_nonneg_left hfewer (mul_nonneg hnear0' hhalf0)
    _ ≤ (near.val + 186 / 10 ^ 10) * halfPower.val ^ j :=
        mul_le_mul_of_nonneg_right (near_mul_half_le hf0 hf1 hnear hnear' hhalf hx hx') hfactor0
    _ ≤ (near.mul (halfPower.power j)).val + 187 / 10 ^ 10 := by
        have hmargin := mul_nonneg ulp_pos.le hfactor0
        rw [hulp] at hround hmargin
        linarith

/-- **The fractional power** of a smaller base exceeds that of a larger by less than 1.9 · 10⁻⁸. -/
theorem fractionalPower_le_add (hbase : base'.raw ≤ base.raw) (hpos : 0 < base'.raw)
    (hle : base.raw ≤ scale) (h : base.fractionalPower exponent = .ok power)
    (h' : base'.fractionalPower exponent = .ok power') :
    power'.val ≤ power.val + 187 / 10 ^ 10 := by
  have hpos' : 0 < base.raw := by omega
  obtain ⟨j, near, hdoubled⟩ := fractionalPower_eq_ok_of_le_one hpos' hle h
  obtain ⟨j', near', hdoubled'⟩ := fractionalPower_eq_ok_of_le_one hpos (by omega) h'
  have hupper := (reduce_base_bounds hpos').2
  have hlower := (reduce_base_bounds hpos).1
  rw [hdoubled.base_eq] at hupper
  rw [hdoubled'.base_eq] at hlower
  rcases Nat.eq_or_lt_of_le (doublings_le hbase hupper hlower) with rfl | hlt
  · rcases Int.lt_or_le scale (reduce base).base.raw with hgt | hone
    · have := hdoubled.le_add_of_same hf0 hf1 hdoubled' hbase hpos hgt hle
      linarith
    · have := val_le_val.mpr (hdoubled.le_of_le_one hf0 hf1 hdoubled' hbase hpos hone)
      linarith
  · exact hdoubled.le_add_of_lt hf0 hf1 hdoubled' hpos' hpos hlt

/-- Fractional powers of aligned bases keep the order. -/
theorem fractionalPower_le_of_aligned (hbase : base'.raw ≤ base.raw) (hpos : 0 < base'.raw)
    (hle : base.raw ≤ scale) (hshift : (reduce base').shift = (reduce base).shift)
    (hone : (reduce base).base.raw ≤ scale) (h : base.fractionalPower exponent = .ok power)
    (h' : base'.fractionalPower exponent = .ok power') : power'.raw ≤ power.raw := by
  obtain ⟨j, near, hdoubled⟩ := fractionalPower_eq_ok_of_le_one (by omega) hle h
  obtain ⟨j', near', hdoubled'⟩ := fractionalPower_eq_ok_of_le_one hpos (by omega) h'
  have hj : j' = j := by
    have := hdoubled.shift_eq
    have := hdoubled'.shift_eq
    omega
  subst hj
  exact hdoubled.le_of_le_one hf0 hf1 hdoubled' hbase hpos hone

end

/-! ## Powers -/

/-- **Aligned bases**: the power keeps their order. -/
theorem raise_le_raise (hbase : base'.raw ≤ base.raw) (hle : base.raw ≤ scale)
    (haligned : Aligned exponent base base') (h : base.raise exponent = .ok power)
    (h' : base'.raise exponent = .ok power') : power'.raw ≤ power.raw := by
  obtain ⟨hpos, _, hcases⟩ := raise_eq_ok h
  obtain ⟨hpos', _, hcases'⟩ := raise_eq_ok h'
  have hwhole := power_le_power hpos'.le hbase exponent.wholePart
  rcases hcases' with ⟨hzero, rfl⟩ | ⟨hfraction, f', hf', rfl⟩
  · rcases hcases with ⟨_, rfl⟩ | ⟨hfraction, _⟩
    · exact hwhole
    · omega
  rcases hcases with ⟨hzero, _⟩ | ⟨_, f, hf, rfl⟩
  · omega
  obtain ⟨hshift, hone⟩ := haligned.resolve_left (by omega)
  have hfractional := fractionalPower_le_of_aligned (val_pos.mpr hfraction)
    (val_lt_one.mpr exponent.fraction_lt) hbase hpos' hle hshift hone hf hf'
  exact raw_mul_le_raw_mul (power_nonneg hpos'.le _)
    (fractionalPower_nonneg hpos' hfraction.le exponent.fraction_lt.le hf') hwhole hfractional

/-- **Powers of bases up to one** keep the order but for less than 1.9 · 10⁻⁸. -/
theorem raise_le_add (hbase : base'.raw ≤ base.raw) (hle : base.raw ≤ scale)
    (h : base.raise exponent = .ok power) (h' : base'.raise exponent = .ok power') :
    power'.val ≤ power.val + 188 / 10 ^ 10 := by
  obtain ⟨hpos, _, hcases⟩ := raise_eq_ok h
  obtain ⟨hpos', _, hcases'⟩ := raise_eq_ok h'
  have hwhole := val_le_val.mpr (power_le_power hpos'.le hbase exponent.wholePart)
  rcases hcases' with ⟨hzero, rfl⟩ | ⟨hfraction, f', hf', rfl⟩
  · rcases hcases with ⟨_, rfl⟩ | ⟨hfraction, _⟩
    · linarith
    · omega
  rcases hcases with ⟨hzero, _⟩ | ⟨_, f, hf, rfl⟩
  · omega
  have hfractional := fractionalPower_le_add (val_pos.mpr hfraction)
    (val_lt_one.mpr exponent.fraction_lt) hbase hpos' hle hf hf'
  have hwhole0' : 0 ≤ (base'.power exponent.wholePart).val := val_nonneg.mpr (power_nonneg hpos'.le _)
  have hwholePower := power_isPower (val_pos.mpr hpos).le (val_le_one.mpr hle) exponent.wholePart
  have hwhole1 : (base.power exponent.wholePart).val ≤ 1 :=
    hwholePower.le.trans (pow_le_one₀ (val_pos.mpr hpos).le (val_le_one.mpr hle))
  have hf0' : 0 ≤ f'.val :=
    val_nonneg.mpr (fractionalPower_nonneg hpos' hfraction.le exponent.fraction_lt.le hf')
  have hulp := ulp_eq
  have hround := lt_val_mul (base.power exponent.wholePart) f
  calc ((base'.power exponent.wholePart).mul f').val
      ≤ (base'.power exponent.wholePart).val * f'.val := val_mul_le hwhole0' hf0'
    _ ≤ (base.power exponent.wholePart).val * f'.val := mul_le_mul_of_nonneg_right hwhole hf0'
    _ ≤ (base.power exponent.wholePart).val * (f.val + 187 / 10 ^ 10) :=
        mul_le_mul_of_nonneg_left hfractional hwholePower.nonneg
    _ ≤ ((base.power exponent.wholePart).mul f).val + 188 / 10 ^ 10 := by
        rw [hulp] at hround
        linarith

end WeightedMarket.Fixed
