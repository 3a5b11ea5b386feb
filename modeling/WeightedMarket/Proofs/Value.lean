/-
  The real numbers that fixed-point numbers stand for.

  `val` divides the raw value by that of one, and `ulp` is one unit of the last place.  Sums are
  exact; products and quotients of what is not negative are too small by less than an `ulp`.
-/
import Mathlib.Data.Real.Basic
import Mathlib.Tactic.FieldSimp
import Mathlib.Tactic.NormNum
import Mathlib.Tactic.Ring
import WeightedMarket.Proofs.Rounding

namespace WeightedMarket.Fixed

variable {a b : Fixed}

theorem scale_cast_pos : (0 : ℝ) < scale := by exact_mod_cast scale_pos

/-- The number that a fixed-point number stands for. -/
noncomputable def val (a : Fixed) : ℝ := a.raw / scale

/-- One unit of the last place. -/
noncomputable def ulp : ℝ := 1 / scale

theorem ulp_pos : 0 < ulp := one_div_pos.mpr scale_cast_pos

/-- The last place is the eighteenth decimal. -/
theorem ulp_eq : ulp = 1 / 10 ^ 18 := by
  rw [ulp]
  norm_num [scale]

/-- Scaling up a value gives the stored integer back. -/
theorem val_mul_scale (a : Fixed) : a.val * scale = a.raw := div_mul_cancel₀ _ scale_cast_pos.ne'

/-- A value counts its last places. -/
theorem val_eq_mul_ulp (a : Fixed) : a.val = a.raw * ulp := by
  rw [val, ulp, mul_one_div]

@[simp] theorem val_one : one.val = 1 := div_self scale_cast_pos.ne'

/-- Sums are exact. -/
@[simp] theorem val_add (a b : Fixed) : (a + b).val = a.val + b.val := by
  rw [val, raw_add, Int.cast_add, add_div, val, val]

/-- Differences are exact. -/
@[simp] theorem val_sub (a b : Fixed) : (a - b).val = a.val - b.val := by
  rw [val, raw_sub, Int.cast_sub, sub_div, val, val]

@[simp] theorem val_ofInt (n : Int) : (ofInt n).val = n := by
  rw [val, ofInt, Int.cast_mul, mul_div_cancel_right₀ _ scale_cast_pos.ne']

@[simp] theorem val_abs (a : Fixed) : a.abs.val = |a.val| := by
  rw [val, val, abs_div, abs_of_pos scale_cast_pos, abs, Int.cast_natCast, Nat.cast_natAbs,
    Int.cast_abs]

/-- Values are ordered as the stored integers are; the comparisons with zero and one below are cases of
it. -/
theorem val_le_val : a.val ≤ b.val ↔ a.raw ≤ b.raw := by
  rw [val, val, div_le_div_iff_of_pos_right scale_cast_pos, Int.cast_le]

theorem val_nonneg : 0 ≤ a.val ↔ 0 ≤ a.raw := by
  rw [val, le_div_iff₀ scale_cast_pos, zero_mul, Int.cast_nonneg_iff]

theorem val_pos : 0 < a.val ↔ 0 < a.raw := by
  rw [val, lt_div_iff₀ scale_cast_pos, zero_mul, Int.cast_pos]

theorem val_neg_iff : a.val < 0 ↔ a.raw < 0 := by
  rw [← not_le, val_nonneg, not_le]

/-- What is stored as zero is worth nothing. -/
theorem val_eq_zero (h : a.raw = 0) : a.val = 0 := by
  rw [val, h, Int.cast_zero, zero_div]

theorem val_lt_val : a.val < b.val ↔ a.raw < b.raw := by
  rw [val, val, div_lt_div_iff_of_pos_right scale_cast_pos, Int.cast_lt]

theorem val_lt_one : a.val < 1 ↔ a.raw < scale := by
  rw [← val_one, val_lt_val]
  rfl

/-- A value is at most one if the stored integer is at most the scale. -/
theorem val_le_one : a.val ≤ 1 ↔ a.raw ≤ scale := by
  rw [← val_one, val_le_val]
  rfl

theorem one_le_val : 1 ≤ a.val ↔ scale ≤ a.raw := by
  rw [← val_one, val_le_val]
  rfl

/-- A bound on the stored integer, relative to the scale, is one on the value. -/
theorem mul_abs_val_le_one {c : Int} (h : c * |a.raw| ≤ scale) : c * |a.val| ≤ 1 := by
  have hcast : (c : ℝ) * |(a.raw : ℝ)| ≤ scale := by exact_mod_cast h
  rw [val, abs_div, abs_of_pos scale_cast_pos, ← mul_div_assoc]
  exact (div_le_one scale_cast_pos).mpr hcast

/-! ## Products and quotients -/

/-- A product is truncated towards zero: of two values that are not negative it is at most the real
product. -/
theorem val_mul_le (ha : 0 ≤ a.val) (hb : 0 ≤ b.val) : (a.mul b).val ≤ a.val * b.val := by
  have h : ((a.mul b).raw : ℝ) * scale ≤ a.raw * b.raw := by
    exact_mod_cast raw_mul_le (val_nonneg.mp ha) (val_nonneg.mp hb)
  rw [← val_mul_scale a, ← val_mul_scale b, ← val_mul_scale (a.mul b)] at h
  have hscale := mul_pos scale_cast_pos scale_cast_pos
  refine le_of_mul_le_mul_right ?_ hscale
  linarith

/-- Truncation takes less than the last place off a product. -/
theorem lt_val_mul (a b : Fixed) : a.val * b.val < (a.mul b).val + ulp := by
  have h : (a.raw : ℝ) * b.raw < ((a.mul b).raw + 1) * scale := by
    exact_mod_cast lt_raw_mul a b
  rw [← val_mul_scale a, ← val_mul_scale b, ← val_mul_scale (a.mul b)] at h
  have hscale := mul_pos scale_cast_pos scale_cast_pos
  have hulp : ulp * scale = 1 := one_div_mul_cancel scale_cast_pos.ne'
  refine lt_of_mul_lt_mul_right ?_ hscale.le
  calc a.val * b.val * (scale * scale) = a.val * scale * (b.val * scale) := by ring
    _ < ((a.mul b).val * scale + 1) * scale := h
    _ = ((a.mul b).val * scale + ulp * scale) * scale := by rw [hulp]
    _ = ((a.mul b).val + ulp) * (scale * scale) := by ring

/-- The product of two values that are not negative is not negative. -/
theorem val_mul_nonneg (ha : 0 ≤ a.val) (hb : 0 ≤ b.val) : 0 ≤ (a.mul b).val :=
  val_nonneg.mpr (raw_mul_nonneg (val_nonneg.mp ha) (val_nonneg.mp hb))

/-- A quotient is truncated in the same way: it is at most the real quotient. -/
theorem val_quo_le (ha : 0 ≤ a.val) (hb : 0 < b.val) : (a.quo b).val ≤ a.val / b.val := by
  have h : ((a.quo b).raw : ℝ) * b.raw ≤ a.raw * scale := by
    exact_mod_cast raw_quo_le (val_nonneg.mp ha) (val_pos.mp hb)
  rw [← val_mul_scale a, ← val_mul_scale b, ← val_mul_scale (a.quo b)] at h
  have hscale := mul_pos scale_cast_pos scale_cast_pos
  rw [le_div_iff₀ hb]
  refine le_of_mul_le_mul_right ?_ hscale
  linarith

/-- Truncation takes less than the last place off a quotient. -/
theorem lt_val_quo (a : Fixed) (hb : 0 < b.val) : a.val / b.val < (a.quo b).val + ulp := by
  have h : (a.raw : ℝ) * scale < ((a.quo b).raw + 1) * b.raw := by
    exact_mod_cast lt_raw_quo a (val_pos.mp hb)
  rw [← val_mul_scale a, ← val_mul_scale b, ← val_mul_scale (a.quo b)] at h
  have hscale := mul_pos scale_cast_pos scale_cast_pos
  have hulp : ulp * scale = 1 := one_div_mul_cancel scale_cast_pos.ne'
  rw [div_lt_iff₀ hb]
  refine lt_of_mul_lt_mul_right ?_ hscale.le
  calc a.val * (scale * scale) = a.val * scale * scale := by ring
    _ < ((a.quo b).val * scale + 1) * (b.val * scale) := h
    _ = ((a.quo b).val * scale + ulp * scale) * (b.val * scale) := by rw [hulp]
    _ = ((a.quo b).val + ulp) * b.val * (scale * scale) := by ring

/-- A quotient is at most the ratio of the raw values. -/
theorem val_quo_le_ratio (ha : 0 ≤ a.raw) (hb : 0 < b.raw) : (a.quo b).val ≤ a.raw / b.raw := by
  have h := val_quo_le (val_nonneg.mpr ha) (val_pos.mpr hb)
  rwa [val, val, val, div_div_div_cancel_right₀ scale_cast_pos.ne'] at h

/-- A quotient by a count loses the rest of the division at most. -/
theorem le_val_quo_ofInt (a : Fixed) (k : ℕ) :
    a.val / (k + 1) ≤ (a.quo (ofInt (k + 1))).val + k / (k + 1) * ulp := by
  have hpos : (0 : ℝ) < k + 1 := Nat.cast_add_one_pos k
  have hraw : a.raw ≤ (a.quo (ofInt (k + 1))).raw * (k + 1) + k := by
    have h := lt_raw_quo a (b := ofInt (k + 1)) (Int.mul_pos (by omega) scale_pos)
    have hof : (ofInt ((k : Int) + 1)).raw = (k + 1) * scale := rfl
    rw [hof, ← Int.mul_assoc] at h
    have := Int.lt_of_mul_lt_mul_right h (Int.le_of_lt scale_pos)
    linarith
  have hcast : (a.raw : ℝ) ≤ (a.quo (ofInt (k + 1))).raw * (k + 1) + k := by exact_mod_cast hraw
  have hscaled := mul_le_mul_of_nonneg_right hcast ulp_pos.le
  rw [div_le_iff₀ hpos, val_eq_mul_ulp, val_eq_mul_ulp]
  calc a.raw * ulp ≤ ((a.quo (ofInt (k + 1))).raw * (k + 1) + k) * ulp := hscaled
    _ = ((a.quo (ofInt (k + 1))).raw * ulp + k / (k + 1) * ulp) * (k + 1) := by
      field_simp

end WeightedMarket.Fixed
