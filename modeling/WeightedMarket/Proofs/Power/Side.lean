/-
  Powers stay on their side of one.

  A base of at most one has no power above one, and a base of at least one has none below.  For integer
  powers and for the series of a base on its own side that is plain.  But a base is also doubled or halved
  across one, and then its series has to be outweighed by that of one half.

  What decides are the first terms: whatever follows adds nothing more above one (`sumAt_le_add_termAt`)
  and takes away less than half of it again below (`le_two_mul_sumAt`), and the first term of one half is
  more than half as large again as that of a base within a third of one (`termAt_one_bounds`).
-/
import WeightedMarket.Proofs.Power.Above
import WeightedMarket.Proofs.Power.Answers

namespace WeightedMarket.Fixed

open Decision

variable {exponent x base power near : Fixed} {j : ℕ}

/-! ## Integer powers -/

theorem scale_le_power (hbase : scale ≤ base.raw) (n : Nat) : scale ≤ (base.power n).raw := by
  have hscale := scale_pos
  apply power_induction (P := fun _ a => scale ≤ a.raw) (Q := fun _ b => scale ≤ b.raw)
  · intro _ _ a b ha hb
    exact ha.trans (le_raw_mul_left (by omega) hb)
  · intro _ b hb
    exact hb.trans (le_raw_mul_left (by omega) hb)
  · exact Int.le_refl _
  · exact hbase

/-- A base of at least one is not lost in its powers. -/
theorem le_power (hbase : scale ≤ base.raw) {n : Nat} (hn : 0 < n) : base.raw ≤ (base.power n).raw := by
  have hscale := scale_pos
  refine (power_induction (P := fun m a => scale ≤ a.raw ∧ (0 < m → base.raw ≤ a.raw))
    (Q := fun _ b => base.raw ≤ b.raw) ?_ ?_ ?_ (Int.le_refl _) n).2 hn
  · rintro m k a b ⟨ha, _⟩ hb
    have hle : b.raw ≤ (a.mul b).raw := le_raw_mul_right ha (by omega)
    exact ⟨by omega, fun _ => by omega⟩
  · intro _ b hb
    exact hb.trans (le_raw_mul_left (by omega) (by omega))
  · exact ⟨Int.le_refl _, fun h => absurd h (Nat.lt_irrefl 0)⟩

theorem power_le (h0 : 0 ≤ base.raw) (h1 : base.raw ≤ scale) {n : Nat} (hn : 0 < n) :
    (base.power n).raw ≤ base.raw := by
  have h0' := val_nonneg.mpr h0
  rw [← val_le_val]
  exact (power_le_pow h0' n).trans (pow_le_of_le_one h0' (val_le_one.mpr h1) hn.ne')

theorem power_le_scale (h0 : 0 ≤ base.raw) (h1 : base.raw ≤ scale) (n : Nat) :
    (base.power n).raw ≤ scale := by
  rcases Nat.eq_zero_or_pos n with rfl | hn
  · rw [power_zero]
    exact Int.le_refl _
  · exact (power_le h0 h1 hn).trans h1

/-! ## First terms -/

theorem raw_termAt_one (h0 : 0 ≤ exponent.raw) (x : Fixed) :
    (termAt exponent x 1).raw = exponent.raw * |x.raw| / scale := by
  have hgap : (exponent - ofInt (0 : ℕ)).abs = exponent :=
    Fixed.ext (by rw [raw_abs_sub_ofInt, gap, Nat.cast_zero, Int.zero_mul, Int.sub_zero, abs_of_nonneg h0])
  have hproduct : 0 ≤ exponent.raw * |x.raw| := Int.mul_nonneg h0 (abs_nonneg _)
  have hquo (a : Fixed) : (a.quo (ofInt ((0 : ℕ) + 1))).raw = a.raw :=
    Int.mul_tdiv_cancel _ (by decide)
  rw [termAt, termAt, nextTerm, hgap, Fixed.one_mul, hquo, ← raw_abs,
    ← Int.tdiv_eq_ediv_of_nonneg (raw_abs x ▸ hproduct)]
  rfl

section

variable (h0 : 0 ≤ exponent.raw) (h1 : exponent.raw < scale)

include h0 h1

/-- Above one no sum exceeds that with the first term. -/
theorem sumAt_le_add_termAt (hx0 : 0 ≤ x.raw) (hx1 : x.raw ≤ scale) (k : ℕ) :
    (sumAt exponent x k).raw ≤ scale + (termAt exponent x 1).raw := by
  have hfirst := termAt_nonneg exponent x 1
  rcases k with _ | k
  · have hone : (sumAt exponent x 0).raw = scale := rfl
    omega
  -- what a positive term adds the negative one before it has taken away
  have hsum : (sumAt exponent x (k + 1)).raw + (if k % 2 = 1 then (termAt exponent x (k + 1)).raw else 0) ≤
      scale + (termAt exponent x 1).raw := by
    induction k with
    | zero =>
      rw [sumAt, minusAt_above h0 h1 hx0]
      exact Int.le_of_eq (Int.add_zero _)
    | succ k ih =>
      have hshrinks := termAt_shrinks h0 h1.le (c := 1) (by decide)
        (by rw [Int.one_mul, abs_of_nonneg hx0]; exact hx1) (k + 1)
      rw [sumAt, minusAt_above h0 h1 hx0]
      rcases Nat.mod_two_eq_zero_or_one k with heven | hodd
      · rw [if_neg (by omega)] at ih
        have hnext : (k + 1) % 2 = 1 := by omega
        rw [decide_eq_true hnext, if_pos rfl, if_pos hnext, raw_sub]
        omega
      · rw [if_pos hodd] at ih
        have hnext : ¬ (k + 1) % 2 = 1 := by omega
        rw [decide_eq_false hnext, if_neg Bool.false_ne_true, if_neg hnext, raw_add]
        omega
  have hterm := termAt_nonneg exponent x (k + 1)
  split at hsum <;> omega

/-- Within a third below one the terms after the first take away less than half of it again. -/
theorem le_two_mul_sumAt (hx : x.raw ≤ 0) (hx3 : 3 * |x.raw| ≤ scale) (k : ℕ) :
    2 * scale - 3 * (termAt exponent x 1).raw + min 1 (termAt exponent x 1).raw ≤
      2 * (sumAt exponent x k).raw := by
  have hfirst := termAt_nonneg exponent x 1
  rcases k with _ | k
  · have hone : (sumAt exponent x 0).raw = scale := rfl
    omega
  -- as much as the last term is left over, and if that is nothing then a unit of an earlier one
  have hsum : 2 * scale - 3 * (termAt exponent x 1).raw + min 1 (termAt exponent x 1).raw ≤
        2 * (sumAt exponent x (k + 1)).raw ∧
      2 * scale - 3 * (termAt exponent x 1).raw + (termAt exponent x (k + 1)).raw ≤
        2 * (sumAt exponent x (k + 1)).raw := by
    induction k with
    | zero =>
      have hone : (sumAt exponent x 0).raw = scale := rfl
      rw [raw_sumAt_succ_below h0 h1 hx, hone, Nat.zero_add]
      omega
    | succ k ih =>
      have hthird := termAt_shrinks h0 h1.le (by decide) hx3 (k + 1)
      have hnext := termAt_nonneg exponent x (k + 1 + 1)
      rw [raw_sumAt_succ_below h0 h1 hx]
      omega
  exact hsum.1

omit h1 in
/-- The first terms of a base within a third of one and of one half are less than a third of the exponent
and at least half of it, rounded down. -/
theorem termAt_one_bounds (hx3 : 3 * |x.raw| < scale) (hpos : 0 < exponent.raw) :
    3 * (termAt exponent x 1).raw < exponent.raw ∧
      exponent.raw ≤ 2 * (termAt exponent (half - one) 1).raw + 1 := by
  have hhalf : |(half - one).raw| = 500000000000000000 := by decide
  rw [raw_termAt_one h0, raw_termAt_one h0, hhalf]
  constructor
  · have hle := Int.ediv_mul_le (exponent.raw * |x.raw|) scale_pos.ne'
    have hlt : exponent.raw * (3 * |x.raw|) < exponent.raw * scale :=
      Int.mul_lt_mul_of_pos_left hx3 hpos
    refine Int.lt_of_mul_lt_mul_right ?_ scale_pos.le
    linarith
  · simp only [scale]
    omega

/-! ## Series against that of one half -/

variable {n k : ℕ} {halfPower : Fixed}

/-- The series of a base of at most one does not exceed one. -/
theorem Near.le_scale (h : Near base exponent n near) (hle : base.raw ≤ scale) :
    near.raw ≤ scale := by
  have hone : (one : Fixed).raw = scale := rfl
  rw [h.total_eq]
  refine sumAt_antitone_below h0 h1 ?_ (Nat.zero_le n)
  rw [raw_sub, hone]
  omega

/-- The series of a base of one or more does not fall below one. -/
theorem Near.scale_le (h : Near base exponent n near) (hge : scale ≤ base.raw)
    (hle : base.raw ≤ 2 * scale) : scale ≤ near.raw := by
  have hone : (one : Fixed).raw = scale := rfl
  rw [h.total_eq]
  refine scale_le_sumAt h0 h1 ?_ ?_ n <;> rw [raw_sub, hone] <;> omega

/-- The series of one half has taken at least its first term away. -/
theorem Near.half_add_termAt_le (h : Near half exponent k halfPower) :
    halfPower.raw + (termAt exponent (half - one) 1).raw ≤ scale := by
  rw [h.total_eq]
  rcases k with _ | k
  · -- it stops at one itself only if it has no first term
    have hzero : (termAt exponent (half - one) 1).raw = 0 :=
      h.stops.stops.resolve_left (show ¬ one < powerPrecision by decide)
    rw [hzero]
    exact Int.le_refl _
  · have hanti := sumAt_antitone_below h0 h1 (x := half - one) (by decide) (show 1 ≤ k + 1 by omega)
    have hfirst := raw_sumAt_succ_below h0 h1 (x := half - one) (by decide) 0
    have hone : (sumAt exponent (half - one) 0).raw = scale := rfl
    rw [Nat.zero_add] at hfirst
    omega

/-- What a base within a third of one has above one, one half has below it. -/
theorem Near.mul_half_le (h : Near base exponent n near) (hhalf : Near half exponent k halfPower)
    (hhalf0 : 0 ≤ halfPower.raw) (hx3 : 3 * |(base - one).raw| ≤ scale) :
    near.raw * halfPower.raw ≤ scale * scale := by
  have hone : (one : Fixed).raw = scale := rfl
  have hfirst := hhalf.half_add_termAt_le h0 h1
  have hterm := termAt_nonneg exponent (half - one) 1
  rcases le_or_gt base.raw scale with hle | hgt
  · exact Int.mul_le_mul (h.le_scale h0 h1 hle) (by omega) hhalf0 scale_pos.le
  · have hx0 : 0 ≤ (base - one).raw := by
      rw [raw_sub, hone]
      omega
    have hx1 : (base - one).raw ≤ scale := by
      rw [abs_of_nonneg hx0] at hx3
      omega
    have hsum := sumAt_le_add_termAt h0 h1 hx0 hx1 n
    rw [← h.total_eq] at hsum
    have hcloser : |(base - one).raw| ≤ |(half - one).raw| := by
      rw [show |(half - one).raw| = 500000000000000000 by decide]
      simp only [scale] at hx3
      omega
    have hterms := termAt_le_termAt exponent hcloser 1
    have hproduct : near.raw * halfPower.raw ≤
        (scale + (termAt exponent (half - one) 1).raw) * (scale - (termAt exponent (half - one) 1).raw) :=
      Int.mul_le_mul (by omega) (by omega) hhalf0 (by omega)
    have hsquare := mul_self_nonneg (termAt exponent (half - one) 1).raw
    linarith

/-- What a base within a third of one has below one, twice has above it. -/
theorem Near.le_mul_twice (h : Near base exponent n near) (hhalf : Near half exponent k halfPower)
    (hpos : 0 < exponent.raw) (hhalf0 : 0 < halfPower.raw)
    (hbounds : 2 * scale ≤ 3 * base.raw ∧ 3 * base.raw < 4 * scale) :
    0 ≤ near.raw ∧ scale * scale ≤ near.raw * (one.quo halfPower).raw := by
  have hscale := scale_pos
  have hone : (one : Fixed).raw = scale := rfl
  have hfirst := hhalf.half_add_termAt_le h0 h1
  have hterm := termAt_nonneg exponent (half - one) 1
  have htwice : scale ≤ (one.quo halfPower).raw :=
    raw_quo_le_raw_quo_left (a := one) hscale.le hhalf0 (hhalf.le_scale h0 h1 (by decide))
  have hwhole (hge : scale ≤ near.raw) :
      0 ≤ near.raw ∧ scale * scale ≤ near.raw * (one.quo halfPower).raw :=
    ⟨hscale.le.trans hge, Int.mul_le_mul hge htwice hscale.le (hscale.le.trans hge)⟩
  rcases le_or_gt scale base.raw with hge | hlt
  · exact hwhole (h.scale_le h0 h1 hge (by omega))
  have hx : (base - one).raw ≤ 0 := by
    rw [raw_sub, hone]
    omega
  have hx3 : 3 * |(base - one).raw| < scale := by
    rw [abs_of_nonpos hx, raw_sub, hone]
    simp only [scale] at hbounds ⊢
    omega
  have hsum := le_two_mul_sumAt h0 h1 hx hx3.le n
  rw [← h.total_eq] at hsum
  obtain ⟨hsmall, hlarge⟩ := termAt_one_bounds h0 hx3 hpos
  rcases Int.lt_or_eq_of_le (termAt_nonneg exponent (base - one) 1) with hsome | hnone
  · rw [min_eq_left hsome] at hsum
    have hmore : halfPower.raw < near.raw := by omega
    have hinverse := lt_raw_quo one hhalf0
    have hproduct : (halfPower.raw + 1) * (one.quo halfPower).raw ≤
        near.raw * (one.quo halfPower).raw := Int.mul_le_mul_of_nonneg_right hmore (by omega)
    rw [hone] at hinverse
    exact ⟨by omega, by linarith⟩
  · -- without a first term nothing is taken away
    rw [← hnone, min_eq_right (by decide)] at hsum
    exact hwhole (by omega)

end

/-! ## Fractional powers -/

section

variable (hpos : 0 < exponent.raw) (hlt : exponent.raw < scale)

include hpos hlt

/-- **A base of at most one** has no fractional power above one. -/
theorem fractionalPower_le_scale (hbase : 0 < base.raw) (hle : base.raw ≤ scale)
    (h : base.fractionalPower exponent = .ok power) : power.raw ≤ scale := by
  obtain ⟨j, near, hdoubled⟩ := fractionalPower_eq_ok_of_le_one hbase hle h
  obtain ⟨n, hnear⟩ := near_of_seriesPower hpos.ne' hdoubled.near_eq
  have hx3 := reduce_base_near hbase
  have hnear0 : 0 ≤ near.raw :=
    seriesPower_nonneg hpos.le hlt.le (two_mul_abs_le hx3) hdoubled.near_eq
  rcases hdoubled.power_eq with ⟨rfl, rfl⟩ | ⟨hj, halfPower, hhalfEq, rfl⟩
  · -- the base is not doubled at all
    apply hnear.le_scale hpos.le hlt
    rw [hdoubled.base_eq, Int.pow_zero, Int.mul_one]
    exact hle
  obtain ⟨k, hhalf⟩ := near_of_seriesPower hpos.ne' hhalfEq
  have hhalf0 : 0 ≤ halfPower.raw := seriesPower_nonneg hpos.le hlt.le (by decide) hhalfEq
  have hpower : (halfPower.power j).raw ≤ halfPower.raw :=
    power_le hhalf0 (hhalf.le_scale hpos.le hlt (by decide)) hj
  -- further powers of one half only help
  apply raw_mul_le_scale hnear0 (power_nonneg hhalf0 j)
  exact (Int.mul_le_mul_of_nonneg_left hpower hnear0).trans
    (hnear.mul_half_le hpos.le hlt hhalf hhalf0 hx3)

/-- **A base of at least one** has no fractional power below one. -/
theorem scale_le_fractionalPower (hge : scale ≤ base.raw)
    (h : base.fractionalPower exponent = .ok power) : scale ≤ power.raw := by
  have hscale := scale_pos
  have hbase : 0 < base.raw := Int.lt_of_lt_of_le hscale hge
  obtain ⟨j, near, hhalved⟩ := fractionalPower_eq_ok_of_two_thirds_le (by omega) h
  obtain ⟨n, hnear⟩ := near_of_seriesPower hpos.ne' hhalved.near_eq
  have hbounds := reduce_base_bounds hbase
  rcases hhalved.power_eq with ⟨rfl, rfl⟩ | ⟨hj, halfPower, hhalfEq, rfl⟩
  · -- the base is not halved at all
    refine hnear.scale_le hpos.le hlt ?_ (by omega)
    rw [hhalved.base_eq, Int.pow_zero, Int.ediv_one]
    exact hge
  obtain ⟨k, hhalf⟩ := near_of_seriesPower hpos.ne' hhalfEq
  have hhalf0 : 0 < halfPower.raw := by
    rw [hhalf.total_eq]
    exact sumAt_pos hpos.le hlt.le (by decide) (by decide) hhalf.stops
  obtain ⟨hnear0, hproduct⟩ := hnear.le_mul_twice hpos.le hlt hhalf hpos hhalf0 hbounds
  have htwice : scale ≤ (one.quo halfPower).raw :=
    raw_quo_le_raw_quo_left (a := one) hscale.le hhalf0 (hhalf.le_scale hpos.le hlt (by decide))
  have hpower := le_power htwice hj
  -- further powers of two only help
  apply scale_le_raw_mul
  exact hproduct.trans (Int.mul_le_mul_of_nonneg_left hpower hnear0)

end

/-! ## Powers -/

/-- **No power of a base of at most one** is above one. -/
theorem raise_le_scale (hle : base.raw ≤ scale) (h : base.raise exponent = .ok power) :
    power.raw ≤ scale := by
  obtain ⟨hpos, _, ⟨_, rfl⟩ | ⟨hfraction, f, hf, rfl⟩⟩ := raise_eq_ok h
  · exact power_le_scale hpos.le hle _
  · have hf0 := fractionalPower_nonneg hpos hfraction.le exponent.fraction_lt.le hf
    have hf1 := fractionalPower_le_scale hfraction exponent.fraction_lt hpos hle hf
    have hwhole := power_le_scale hpos.le hle exponent.wholePart
    exact raw_mul_le_scale (power_nonneg hpos.le _) hf0
      (Int.mul_le_mul hwhole hf1 hf0 scale_pos.le)

/-- **No power of a base of at least one** is below one. -/
theorem scale_le_raise (hge : scale ≤ base.raw) (h : base.raise exponent = .ok power) :
    scale ≤ power.raw := by
  obtain ⟨_, _, ⟨_, rfl⟩ | ⟨hfraction, f, hf, rfl⟩⟩ := raise_eq_ok h
  · exact scale_le_power hge _
  · have hf1 := scale_le_fractionalPower hfraction exponent.fraction_lt hge hf
    have hwhole := scale_le_power hge exponent.wholePart
    exact scale_le_raw_mul (Int.mul_le_mul hwhole hf1 scale_pos.le (scale_pos.le.trans hwhole))

end WeightedMarket.Fixed
