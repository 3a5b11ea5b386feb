/-
  How far a rounded result is from the exact one.

  Products and quotients are truncated toward zero.  Where nothing is negative that rounds down, by
  less than one unit, and each rule says so on both sides: `raw_mul_le` and `lt_raw_mul`, `raw_quo_le` and
  `lt_raw_quo`.  Dropping digits rounds down by less than one unit of what is kept.
-/
import Mathlib.Tactic.Linarith
import WeightedMarket.Fixed

namespace WeightedMarket.Fixed

variable {a b : Fixed}

theorem scale_pos : 0 < scale := by decide

theorem raw_le_max_right (a b : Fixed) : b.raw ≤ (a.max b).raw := by
  rw [max]
  split
  · exact Int.le_refl _
  · next hnot => exact Int.not_lt.mp hnot

/-- Truncated division never overshoots: the quotient times the divisor is at most what was divided. -/
theorem tdiv_mul_le {n d : Int} (hn : 0 ≤ n) (hd : 0 < d) : n.tdiv d * d ≤ n := by
  rw [Int.tdiv_eq_ediv_of_nonneg hn]
  exact Int.ediv_mul_le n (Int.ne_of_gt hd)

/-! ## Products -/

/-- The signs of products and quotients are those of the exact ones, except that truncation may leave
zero. -/
theorem raw_mul_nonneg (ha : 0 ≤ a.raw) (hb : 0 ≤ b.raw) : 0 ≤ (a.mul b).raw :=
  Int.tdiv_nonneg (Int.mul_nonneg ha hb) (Int.le_of_lt scale_pos)

/-- A positive product of a factor that is not negative has two positive factors. -/
theorem pos_of_raw_mul_pos (ha : 0 ≤ a.raw) (h : 0 < (a.mul b).raw) : 0 < a.raw ∧ 0 < b.raw := by
  have hproduct : 0 < a.raw * b.raw := by
    by_contra hneg
    have hquotient : 0 ≤ (-(a.raw * b.raw)).tdiv scale :=
      Int.tdiv_nonneg (by omega) (Int.le_of_lt scale_pos)
    rw [Int.neg_tdiv] at hquotient
    have heq : (a.mul b).raw = (a.raw * b.raw).tdiv scale := rfl
    omega
  have hne : a.raw ≠ 0 := by
    intro hzero
    rw [hzero, Int.zero_mul] at hproduct
    exact absurd hproduct (Int.lt_irrefl 0)
  have hpos : 0 < a.raw := by omega
  exact ⟨hpos, pos_of_mul_pos_right hproduct ha⟩

theorem raw_mul_nonpos (ha : a.raw ≤ 0) (hb : 0 ≤ b.raw) : (a.mul b).raw ≤ 0 := by
  have h := Int.tdiv_le_tdiv scale_pos (Int.mul_nonpos_of_nonpos_of_nonneg ha hb)
  rwa [Int.zero_tdiv] at h

theorem raw_mul_nonpos_right (ha : 0 ≤ a.raw) (hb : b.raw ≤ 0) : (a.mul b).raw ≤ 0 := by
  have h := raw_mul_nonpos hb ha
  rwa [mul, Int.mul_comm] at h

/-- A factor of at most one leaves at most the other factor. -/
theorem raw_mul_le_left (ha : 0 ≤ a.raw) (hb : b.raw ≤ scale) : (a.mul b).raw ≤ a.raw := by
  have h := Int.tdiv_le_tdiv scale_pos (Int.mul_le_mul_of_nonneg_left hb ha)
  rwa [Int.mul_tdiv_cancel _ (Int.ne_of_gt scale_pos)] at h

/-- A product is not rounded up. -/
theorem raw_mul_le (ha : 0 ≤ a.raw) (hb : 0 ≤ b.raw) : (a.mul b).raw * scale ≤ a.raw * b.raw :=
  tdiv_mul_le (Int.mul_nonneg ha hb) scale_pos

/-- A product is rounded down by less than one unit. -/
theorem lt_raw_mul (a b : Fixed) : a.raw * b.raw < ((a.mul b).raw + 1) * scale :=
  Int.lt_tdiv_add_one_mul_self _ scale_pos

/-- A product of factors that are not negative grows with each of them. -/
theorem raw_mul_le_raw_mul {a' b' : Fixed} (ha : 0 ≤ a.raw) (hb : 0 ≤ b.raw) (haa : a.raw ≤ a'.raw)
    (hbb : b.raw ≤ b'.raw) : (a.mul b).raw ≤ (a'.mul b').raw :=
  Int.tdiv_le_tdiv scale_pos (Int.mul_le_mul haa hbb hb (Int.le_trans ha haa))

@[simp] protected theorem one_mul (a : Fixed) : one.mul a = a := by
  ext
  exact Int.mul_tdiv_cancel_left _ (by decide)

@[simp] protected theorem mul_one (a : Fixed) : a.mul one = a := by
  ext
  exact Int.mul_tdiv_cancel _ (by decide)

/-- A factor of at least one does not make a product smaller than the other factor. -/
theorem le_raw_mul_left (ha : 0 ≤ a.raw) (hb : scale ≤ b.raw) : a.raw ≤ (a.mul b).raw := by
  have h := raw_mul_le_raw_mul (b := one) ha scale_pos.le (Int.le_refl a.raw) hb
  rwa [Fixed.mul_one] at h

theorem le_raw_mul_right (ha : scale ≤ a.raw) (hb : 0 ≤ b.raw) : b.raw ≤ (a.mul b).raw := by
  have h := raw_mul_le_raw_mul (a := one) scale_pos.le hb ha (Int.le_refl b.raw)
  rwa [Fixed.one_mul] at h

/-- A product is at least one if that of the raw values is. -/
theorem scale_le_raw_mul (h : scale * scale ≤ a.raw * b.raw) : scale ≤ (a.mul b).raw := by
  have hlt := lt_raw_mul a b
  have hscale := scale_pos
  by_contra hless
  have hle : ((a.mul b).raw + 1) * scale ≤ scale * scale :=
    Int.mul_le_mul_of_nonneg_right (by omega) hscale.le
  omega

/-- A product is at most one if that of the raw values is. -/
theorem raw_mul_le_scale (ha : 0 ≤ a.raw) (hb : 0 ≤ b.raw) (h : a.raw * b.raw ≤ scale * scale) :
    (a.mul b).raw ≤ scale :=
  Int.le_of_mul_le_mul_right ((raw_mul_le ha hb).trans h) scale_pos

/-- The product with a whole number is exact. -/
theorem raw_mul_ofInt (a : Fixed) (n : Int) : (a.mul (.ofInt n)).raw = a.raw * n := by
  rw [mul, ofInt, ← Int.mul_assoc]
  exact Int.mul_tdiv_cancel _ (by decide)

/-! ## Quotients -/

theorem raw_quo_nonneg (ha : 0 ≤ a.raw) (hb : 0 ≤ b.raw) : 0 ≤ (a.quo b).raw :=
  Int.tdiv_nonneg (Int.mul_nonneg ha (Int.le_of_lt scale_pos)) hb

theorem raw_quo_nonpos (ha : a.raw ≤ 0) (hb : 0 < b.raw) : (a.quo b).raw ≤ 0 := by
  have h := Int.tdiv_le_tdiv hb (Int.mul_nonpos_of_nonpos_of_nonneg ha (Int.le_of_lt scale_pos))
  rwa [Int.zero_tdiv] at h

/-- A quotient is not rounded up. -/
theorem raw_quo_le (ha : 0 ≤ a.raw) (hb : 0 < b.raw) : (a.quo b).raw * b.raw ≤ a.raw * scale :=
  tdiv_mul_le (Int.mul_nonneg ha (Int.le_of_lt scale_pos)) hb

/-- A quotient is rounded down by less than one unit. -/
theorem lt_raw_quo (a : Fixed) (hb : 0 < b.raw) : a.raw * scale < ((a.quo b).raw + 1) * b.raw :=
  Int.lt_tdiv_add_one_mul_self _ hb

/-- A quotient grows with its dividend. -/
theorem raw_quo_le_raw_quo {a' : Fixed} (hb : 0 < b.raw) (h : a.raw ≤ a'.raw) :
    (a.quo b).raw ≤ (a'.quo b).raw :=
  Int.tdiv_le_tdiv hb (Int.mul_le_mul_of_nonneg_right h (Int.le_of_lt scale_pos))

/-- A larger divisor gives a smaller quotient. -/
theorem raw_quo_le_raw_quo_left {b' : Fixed} (ha : 0 ≤ a.raw) (hb : 0 < b.raw) (h : b.raw ≤ b'.raw) :
    (a.quo b').raw ≤ (a.quo b).raw := by
  have hnonneg := raw_quo_nonneg ha (Int.le_trans (Int.le_of_lt hb) h)
  have hexact := raw_quo_le ha (Int.lt_of_lt_of_le hb h)
  have hscaled := Int.mul_le_mul_of_nonneg_left h hnonneg
  refine Int.le_of_lt_add_one (Int.lt_of_mul_lt_mul_right ?_ (Int.le_of_lt hb))
  exact Int.lt_of_le_of_lt (Int.le_trans hscaled hexact) (lt_raw_quo a hb)

/-- What is at least its divisor has a quotient of at least one. -/
theorem scale_le_raw_quo (hb : 0 < b.raw) (h : b.raw ≤ a.raw) : scale ≤ (a.quo b).raw := by
  apply Int.le_tdiv_of_mul_le hb
  rw [Int.mul_comm]
  exact Int.mul_le_mul_of_nonneg_right h (Int.le_of_lt scale_pos)

/-- What is at most its divisor has a quotient of at most one. -/
theorem raw_quo_le_scale (ha : 0 ≤ a.raw) (hb : 0 < b.raw) (h : a.raw ≤ b.raw) :
    (a.quo b).raw ≤ scale := by
  refine Int.le_of_mul_le_mul_right ((raw_quo_le ha hb).trans ?_) hb
  rw [Int.mul_comm scale]
  exact Int.mul_le_mul_of_nonneg_right h (Int.le_of_lt scale_pos)

/-! ## Dropped digits -/

theorem unitOf_pos (d : Nat) : 0 < unitOf d := Int.pow_pos (by decide)

/-- What is truncated to a precision is a multiple of its unit. -/
theorem unitOf_dvd_truncateTo (a : Fixed) (d : Nat) : unitOf d ∣ (a.truncateTo d).raw :=
  Int.dvd_mul_left _ _

/-- What is raised to a precision is a multiple of its unit, too. -/
theorem unitOf_dvd_ceilTo (a : Fixed) (d : Nat) : unitOf d ∣ (a.ceilTo d).raw :=
  Int.dvd_mul_left _ _

theorem truncateTo_nonneg (ha : 0 ≤ a.raw) (d : Nat) : 0 ≤ (a.truncateTo d).raw :=
  Int.mul_nonneg (Int.tdiv_nonneg ha (Int.le_of_lt (unitOf_pos d))) (Int.le_of_lt (unitOf_pos d))

/-- Truncation takes from an amount that is not negative. -/
theorem truncateTo_le (ha : 0 ≤ a.raw) (d : Nat) : (a.truncateTo d).raw ≤ a.raw :=
  tdiv_mul_le ha (unitOf_pos d)

/-- Truncation keeps the order of amounts. -/
theorem truncateTo_le_truncateTo (h : a.raw ≤ b.raw) (d : Nat) :
    (a.truncateTo d).raw ≤ (b.truncateTo d).raw :=
  Int.mul_le_mul_of_nonneg_right (Int.tdiv_le_tdiv (unitOf_pos d) h) (Int.le_of_lt (unitOf_pos d))

/-- Less than one unit of what is kept is dropped. -/
theorem lt_truncateTo (a : Fixed) (d : Nat) : a.raw < (a.truncateTo d).raw + unitOf d := by
  have h := Int.lt_tdiv_add_one_mul_self a.raw (unitOf_pos d)
  rwa [Int.add_mul, Int.one_mul] at h

/-- What is not a multiple of the unit loses something, and nothing else does. -/
theorem truncateTo_eq_iff (a : Fixed) (d : Nat) : (a.truncateTo d).raw = a.raw ↔ unitOf d ∣ a.raw := by
  constructor
  · intro h
    rw [← h]
    exact unitOf_dvd_truncateTo a d
  · exact Int.tdiv_mul_cancel

/-- What is negative does not become positive. -/
theorem truncateTo_nonpos (ha : a.raw ≤ 0) (d : Nat) : (a.truncateTo d).raw ≤ 0 := by
  have h : 0 ≤ (-a.raw).tdiv (unitOf d) :=
    Int.tdiv_nonneg (Int.neg_nonneg_of_nonpos ha) (Int.le_of_lt (unitOf_pos d))
  rw [Int.neg_tdiv] at h
  exact Int.mul_nonpos_of_nonpos_of_nonneg (Int.nonpos_of_neg_nonneg h) (Int.le_of_lt (unitOf_pos d))

end WeightedMarket.Fixed
