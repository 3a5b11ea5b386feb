/-
  What is lost in reducing a base.

  Of the two loops of a reduction one at most runs.  Doubling loses nothing.  Halving rounds down in every
  round, but all rounds together come to one division that is rounded down (`iterate_halved`); what that
  loses is less than one unit of the reduced base, and there are two thirds of 10¹⁸ of those.
-/
import Mathlib.Algebra.Order.Floor.Ring
import Mathlib.Data.Rat.Floor
import WeightedMarket.Proofs.Power.Reduction

namespace WeightedMarket.Fixed

/-- A division by a power of two loses less than one unit of its quotient, so a small part of what is
divided if the quotient is not small. -/
theorem halving_loss_lt {v : Int} {n : Nat} (h : 2 * scale ≤ 3 * (v / 2 ^ n)) :
    ((v : ℚ) - (v / 2 ^ n : Int) * 2 ^ n) / v < 3 / 2 / 10 ^ 18 := by
  have hpow : (0 : Int) < 2 ^ n := Int.pow_pos (by decide)
  have hle : v / 2 ^ n * 2 ^ n ≤ v := Int.ediv_mul_le v hpow.ne'
  have hlt : v < v / 2 ^ n * 2 ^ n + 2 ^ n := Int.lt_ediv_add_one_mul_self v hpow |>.trans_eq (by ring)
  have hwhole : 2 * scale * 2 ^ n ≤ 3 * v :=
    calc 2 * scale * 2 ^ n ≤ 3 * (v / 2 ^ n) * 2 ^ n := Int.mul_le_mul_of_nonneg_right h hpow.le
      _ = 3 * (v / 2 ^ n * 2 ^ n) := by ring
      _ ≤ 3 * v := Int.mul_le_mul_of_nonneg_left hle (by decide)
  have hloss : 2 * scale * (v - v / 2 ^ n * 2 ^ n) < 3 * v :=
    lt_of_lt_of_le (Int.mul_lt_mul_of_pos_left (by omega) (by decide)) hwhole
  have hpos : 0 < v := by
    have := Int.mul_pos (show 0 < 2 * scale by decide) hpow
    omega
  have hcast : 2 * 10 ^ 18 * ((v : ℚ) - (v / 2 ^ n : Int) * 2 ^ n) < 3 * v := by
    have h := (Int.cast_lt (R := ℚ)).mpr hloss
    push_cast [scale] at h ⊢
    linarith
  rw [div_lt_iff₀ (by exact_mod_cast hpos)]
  linarith

/-- **A reduced base** lies in [2/3, 4/3).  It is what two loops have come to of which one at most runs; a
base that was halved is divided by its power of two, rounded down, and loses less than one and a half parts
in 10¹⁸; one that was not is multiplied by its power of two. -/
theorem reduce_floored_or_exact {base : Fixed} (hbase : 0 < base.raw) :
    (∃ halvings doublings v w, Ends TooLarge (· / 2) halvings base.raw v ∧
      Ends TooSmall (2 * ·) doublings v w ∧ reduce base = ⟨⟨w⟩, halvings - doublings⟩ ∧
      (halvings = 0 ∨ doublings = 0)) ∧
    (2 * scale ≤ 3 * (reduce base).base.raw ∧ 3 * (reduce base).base.raw < 4 * scale) ∧
    (0 < (reduce base).shift →
      (reduce base).base.raw = ⌊(base.raw : ℚ) / 2 ^ (reduce base).shift⌋ ∧
      ((base.raw : ℚ) - (reduce base).base.raw * 2 ^ (reduce base).shift) / base.raw < 3 / 2 / 10 ^ 18) ∧
    ((reduce base).shift ≤ 0 →
      ((reduce base).base.raw : ℚ) = base.raw * 2 ^ (-(reduce base).shift)) := by
  obtain ⟨halvings, doublings, v, w, hhalved, hdoubled, hreduce⟩ := reduce_ends hbase
  have hone := hhalved.eq_zero_of_halved hdoubled
  have hbounds := reduce_base_bounds hbase
  have hv := hhalved.eq_ediv
  have hw := hdoubled.eq_mul
  refine ⟨⟨halvings, doublings, v, w, hhalved, hdoubled, hreduce, hone⟩, hbounds, fun hshift => ?halved,
    fun hshift => ?doubled⟩
  case halved =>
    obtain rfl : doublings = 0 := by
      rw [hreduce] at hshift
      dsimp only at hshift
      omega
    rw [pow_zero, Int.mul_one] at hw
    subst hw hv
    rw [hreduce] at hbounds ⊢
    simp only [Nat.cast_zero, Int.sub_zero, zpow_natCast]
    refine ⟨?_, halving_loss_lt hbounds.1⟩
    exact_mod_cast (Rat.floor_intCast_div_natCast base.raw (2 ^ halvings)).symm
  case doubled =>
    obtain rfl : halvings = 0 := by
      rw [hreduce] at hshift
      dsimp only at hshift
      omega
    rw [pow_zero, Int.ediv_one] at hv
    subst hv hw
    rw [hreduce]
    simp only [Nat.cast_zero, Int.zero_sub, Int.neg_neg, zpow_natCast]
    push_cast
    rfl

/-- The second base above the upper edge is halved to the first above the lower one, and loses its last
unit. -/
theorem reduce_floored_of_edge :
    reduce ⟨1333333333333333335⟩ = ⟨⟨666666666666666667⟩, 1⟩ ∧
    ((1333333333333333335 : ℚ) - 666666666666666667 * 2 ^ (1 : Int)) / 1333333333333333335 <
      3 / 2 / 10 ^ 18 := by
  have hbase : 0 < (⟨1333333333333333335⟩ : Fixed).raw := by decide
  have hreduce : reduce ⟨1333333333333333335⟩ = ⟨⟨666666666666666667⟩, 1⟩ := by decide +kernel
  obtain ⟨-, -, hfloored, -⟩ := reduce_floored_or_exact hbase
  rw [hreduce] at hfloored
  exact ⟨hreduce, (hfloored (by decide)).2⟩

end WeightedMarket.Fixed
