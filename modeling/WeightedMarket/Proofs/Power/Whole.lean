/-
  The error of integer powers.

  Repeated squaring truncates after every product.  Of a base of at most one an error is never
  magnified, and a product adds one unit to those of its factors; so what is computed for the `k`-th
  power is too small by at most `k - 1` units (`power_isPower`).
-/
import WeightedMarket.Proofs.Power.Squaring
import WeightedMarket.Proofs.Value

namespace WeightedMarket.Fixed

/-- A computed `k`-th power: not above the exact one, and at most `k - 1` units below it. -/
structure IsPower (q : ℝ) (k : Nat) (a : Fixed) : Prop where
  nonneg : 0 ≤ a.val
  le : a.val ≤ q ^ k
  ge : q ^ k ≤ a.val + (k - 1 : Nat) * ulp

namespace IsPower

variable {q : ℝ} {a b : Fixed} {i j : Nat}

theorem one (q : ℝ) : IsPower q 0 one := ⟨by simp, by simp, by simp⟩

theorem self (h0 : 0 ≤ a.val) : IsPower a.val 1 a := ⟨h0, by simp, by simp⟩

/-- Only one itself is a computed zeroth power. -/
theorem eq_one (h : IsPower q 0 a) : a = Fixed.one := by
  have hle := h.le
  have hge := h.ge
  simp only [pow_zero, Nat.zero_sub, Nat.cast_zero, zero_mul, add_zero] at hle hge
  have hraw : a.raw ≤ scale := val_le_one.mp hle
  have hraw' : scale ≤ a.raw := by
    exact one_le_val.mp hge
  exact Fixed.ext (Int.le_antisymm hraw hraw')

/-- The product of two computed powers, which adds one unit to their errors. -/
theorem mul (hq0 : 0 ≤ q) (hq1 : q ≤ 1) (ha : IsPower q i a) (hb : IsPower q j b) :
    IsPower q (i + j) (a.mul b) := by
  rcases Nat.eq_zero_or_pos i with rfl | hi
  · rw [ha.eq_one, Fixed.one_mul, Nat.zero_add]
    exact hb
  rcases Nat.eq_zero_or_pos j with rfl | hj
  · rw [hb.eq_one, Fixed.mul_one, Nat.add_zero]
    exact ha
  refine ⟨val_mul_nonneg ha.nonneg hb.nonneg, ?_, ?_⟩
  · calc (a.mul b).val ≤ a.val * b.val := val_mul_le ha.nonneg hb.nonneg
      _ ≤ q ^ i * q ^ j := mul_le_mul ha.le hb.le hb.nonneg (pow_nonneg hq0 i)
      _ = q ^ (i + j) := (pow_add q i j).symm
  · have hb1 : b.val ≤ 1 := hb.le.trans (pow_le_one₀ hq0 hq1)
    have hqi : q ^ i ≤ 1 := pow_le_one₀ hq0 hq1
    have hi' : 0 ≤ ((i - 1 : Nat) : ℝ) * ulp := mul_nonneg (Nat.cast_nonneg _) ulp_pos.le
    have hj' : 0 ≤ ((j - 1 : Nat) : ℝ) * ulp := mul_nonneg (Nat.cast_nonneg _) ulp_pos.le
    have hcount : ((i + j - 1 : Nat) : ℝ) = (i - 1 : Nat) + (j - 1 : Nat) + 1 := by
      have : i + j - 1 = (i - 1) + (j - 1) + 1 := by omega
      rw [this]
      push_cast
      ring
    have hfirst : q ^ i * q ^ j ≤ q ^ i * (b.val + (j - 1 : Nat) * ulp) :=
      mul_le_mul_of_nonneg_left hb.ge (pow_nonneg hq0 i)
    have hsecond : q ^ i * b.val ≤ (a.val + (i - 1 : Nat) * ulp) * b.val :=
      mul_le_mul_of_nonneg_right ha.ge hb.nonneg
    have hthird : q ^ i * ((j - 1 : Nat) * ulp) ≤ (j - 1 : Nat) * ulp :=
      mul_le_of_le_one_left hj' hqi
    have hfourth : ((i - 1 : Nat) * ulp) * b.val ≤ (i - 1 : Nat) * ulp :=
      mul_le_of_le_one_right hi' hb1
    have hround := (lt_val_mul a b).le
    rw [pow_add, hcount]
    linarith

end IsPower

/-- **An integer power** of a base of at most one is too small by at most `n - 1` units. -/
theorem power_isPower {base : Fixed} (h0 : 0 ≤ base.val) (h1 : base.val ≤ 1) (n : Nat) :
    IsPower base.val n (base.power n) := by
  apply power_induction (P := IsPower base.val) (Q := IsPower base.val)
  · intro _ _ a b ha hb
    exact ha.mul h0 h1 hb
  · intro _ b hb
    exact hb.mul h0 h1 hb
  · exact IsPower.one _
  · exact IsPower.self h0

/-! ## Any base -/

/-- A computed `k`-th power that is not too large. -/
structure IsAtMost (q : ℝ) (k : Nat) (a : Fixed) : Prop where
  nonneg : 0 ≤ a.val
  le : a.val ≤ q ^ k

theorem IsAtMost.mul {q : ℝ} {a b : Fixed} {i j : Nat} (ha : IsAtMost q i a) (hb : IsAtMost q j b) :
    IsAtMost q (i + j) (a.mul b) where
  nonneg := val_mul_nonneg ha.nonneg hb.nonneg
  le := by
    calc (a.mul b).val ≤ a.val * b.val := val_mul_le ha.nonneg hb.nonneg
      _ ≤ q ^ i * q ^ j := mul_le_mul ha.le hb.le hb.nonneg (ha.nonneg.trans ha.le)
      _ = q ^ (i + j) := (pow_add q i j).symm

/-- **No integer power is too large.** -/
theorem power_le_pow {base : Fixed} (h0 : 0 ≤ base.val) (n : Nat) :
    (base.power n).val ≤ base.val ^ n := by
  have h : IsAtMost base.val n (base.power n) := by
    apply power_induction (P := IsAtMost base.val) (Q := IsAtMost base.val)
    · intro _ _ a b ha hb
      exact ha.mul hb
    · intro _ b hb
      exact hb.mul hb
    · exact ⟨by simp, by simp⟩
    · exact ⟨h0, by simp⟩
  exact h.le

end WeightedMarket.Fixed
