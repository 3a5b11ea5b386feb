/-
  Where powers keep the order of their bases.

  Integer powers keep it, since every truncated product does (`power_le_power`), and so does the series
  up to one, whatever its precision (`seriesPower_le_seriesPower`).  There all terms are taken away, the
  base farther from one has the larger ones, and it stops first only if the other has nothing left to
  take away.

  Above one the terms alternate, and of two sums the larger base's may have stopped at a negative term
  that the other does without.  What is left there is that no sum is less than one (`scale_le_sumAt`).
-/
import WeightedMarket.Proofs.Power.Sign

namespace WeightedMarket.Fixed

variable {exponent x precision : Fixed}

/-! ## Integer powers -/

/-- One number between zero and another. -/
abbrev Under (a a' : Fixed) : Prop := 0 ≤ a.raw ∧ a.raw ≤ a'.raw

theorem Under.mul {a a' b b' : Fixed} (ha : Under a a') (hb : Under b b') :
    Under (a.mul b) (a'.mul b') := by
  constructor
  · exact raw_mul_nonneg ha.1 hb.1
  · exact raw_mul_le_raw_mul ha.1 hb.1 ha.2 hb.2

/-- **Integer powers** keep the order of bases that are not negative. -/
theorem power_le_power {base base' : Fixed} (h0 : 0 ≤ base.raw) (h : base.raw ≤ base'.raw) (n : Nat) :
    (base.power n).raw ≤ (base'.power n).raw := by
  have hunder : Under (base.power n) (base'.power n) := by
    refine powerFrom_induction (P := fun _ => Under) (Q := fun _ => Under) (m := 0) (k := 1) ?_ ?_ ?_ ?_
    · intro _ _ a a' b b' ha hb
      exact ha.mul hb
    · intro _ b b' hb
      exact hb.mul hb
    · exact ⟨Int.le_of_lt scale_pos, Int.le_refl _⟩
    · exact ⟨h0, h⟩
  exact hunder.2

/-! ## Sums up to one -/

section

variable (h0 : 0 ≤ exponent.raw) (h1 : exponent.raw < scale)

include h0 h1

/-- Up to one every term is taken away. -/
theorem raw_sumAt_succ_below (hx : x.raw ≤ 0) (k : Nat) :
    (sumAt exponent x (k + 1)).raw = (sumAt exponent x k).raw - (termAt exponent x (k + 1)).raw := by
  rcases Int.lt_or_eq_of_le hx with hlt | hzero
  · rw [sumAt, minusAt_below h0 h1 hlt, if_pos rfl, raw_sub]
  · -- at one itself there is nothing to take away
    rw [sumAt_of_one hzero, sumAt_of_one hzero, termAt_succ_of_one exponent hzero, Int.sub_zero]

theorem sumAt_antitone_below (hx : x.raw ≤ 0) {i k : Nat} (hik : i ≤ k) :
    (sumAt exponent x k).raw ≤ (sumAt exponent x i).raw := by
  induction hik with
  | refl => exact Int.le_refl _
  | @step k _ ih =>
    have hterm := termAt_nonneg exponent x (k + 1)
    rw [raw_sumAt_succ_below h0 h1 hx]
    omega

/-- Sums of equally many terms keep the order. -/
theorem sumAt_le_sumAt_below {y : Fixed} (hxy : x.raw ≤ y.raw) (hy : y.raw ≤ 0) (k : Nat) :
    (sumAt exponent x k).raw ≤ (sumAt exponent y k).raw := by
  have hx : x.raw ≤ 0 := Int.le_trans hxy hy
  have habs : |y.raw| ≤ |x.raw| := abs_le_abs_of_nonpos hy hxy
  induction k with
  | zero => exact Int.le_refl _
  | succ k ih =>
    have hterm := termAt_le_termAt exponent habs (k + 1)
    rw [raw_sumAt_succ_below h0 h1 hx, raw_sumAt_succ_below h0 h1 hy]
    omega

/-- Sums that have stopped keep the order, however many terms each of them has. -/
theorem sumAt_le_sumAt_of_stopsAt {y : Fixed} {n k : Nat} (hxy : x.raw ≤ y.raw) (hy : y.raw ≤ 0)
    (hfar : StopsAt exponent x precision n) (hnear : StopsAt exponent y precision k) :
    (sumAt exponent x n).raw ≤ (sumAt exponent y k).raw := by
  have hx : x.raw ≤ 0 := Int.le_trans hxy hy
  have habs : |y.raw| ≤ |x.raw| := abs_le_abs_of_nonpos hy hxy
  rcases Nat.le_total k n with hkn | hnk
  · exact Int.le_trans (sumAt_antitone_below h0 h1 hx hkn) (sumAt_le_sumAt_below h0 h1 hxy hy k)
  rcases Nat.eq_or_lt_of_le hnk with rfl | hlt
  · exact sumAt_le_sumAt_below h0 h1 hxy hy n
  -- the nearer sum has gone on at a term that the farther one has stopped at
  have hlarge := le_def.mp (hnear.goesOn n hlt)
  have hterm := termAt_le_termAt exponent habs n
  have hvanished : (termAt exponent x (n + 1)).raw = 0 := by
    rcases hfar.stops with hsmall | hzero
    · have := lt_def.mp hsmall
      omega
    · exact hzero
  have hnext : (termAt exponent y (n + 1)).raw = 0 := by
    have hle := termAt_le_termAt exponent habs (n + 1)
    have hnonneg := termAt_nonneg exponent y (n + 1)
    omega
  -- so what it has added since then is nothing
  have hrest : ∀ i, (sumAt exponent y (n + i)).raw = (sumAt exponent y n).raw := by
    intro i
    induction i with
    | zero => rfl
    | succ i ih =>
      have hzero := termAt_eq_zero_of_le hnext (show n + 1 ≤ n + i + 1 by omega)
      rw [← Nat.add_assoc, raw_sumAt_succ_below h0 h1 hy, ih, hzero, Int.sub_zero]
  rw [show k = n + (k - n) by omega, hrest]
  exact sumAt_le_sumAt_below h0 h1 hxy hy n

/-- **The series** keeps the order of bases up to one, with any precision and any limits. -/
theorem seriesPower_le_seriesPower {base base' power power' : Fixed} {limit limit' : Int}
    (hbase : base.raw ≤ base'.raw) (hle : base'.raw ≤ scale)
    (h : seriesPower base exponent precision limit = .ok power)
    (h' : seriesPower base' exponent precision limit' = .ok power') : power.raw ≤ power'.raw := by
  rcases seriesPower_eq_ok h with ⟨hzero, rfl⟩ | ⟨hne, n, rfl, hfar⟩
  · rcases seriesPower_eq_ok h' with ⟨_, rfl⟩ | ⟨hne, _⟩
    · exact Int.le_refl _
    · exact absurd hzero hne
  rcases seriesPower_eq_ok h' with ⟨hzero, _⟩ | ⟨_, k, rfl, hnear⟩
  · exact absurd hzero hne
  have hone : (one : Fixed).raw = scale := rfl
  refine sumAt_le_sumAt_of_stopsAt h0 h1 ?_ ?_ hfar hnear
  · rw [raw_sub, raw_sub]
    omega
  · rw [raw_sub, hone]
    omega

end

/-! ## Sums above one -/

section

variable (h0 : 0 ≤ exponent.raw) (h1 : exponent.raw < scale) (hx0 : 0 ≤ x.raw) (hx1 : x.raw ≤ scale)

include h0 h1 hx0 hx1

/-- What a negative term takes away the term before it has brought. -/
theorem scale_add_termAt_le_sumAt (k : Nat) :
    scale + (if k % 2 = 1 then (termAt exponent x k).raw else 0) ≤ (sumAt exponent x k).raw := by
  induction k with
  | zero => exact Int.le_of_eq (Int.add_zero _)
  | succ k ih =>
    have hshrinks := termAt_shrinks h0 (Int.le_of_lt h1) (c := 1) (by decide)
      (by rw [Int.one_mul, abs_of_nonneg hx0]; exact hx1) k
    rw [sumAt, minusAt_above h0 h1 hx0]
    rcases Nat.mod_two_eq_zero_or_one k with heven | hodd
    · rw [if_neg (by omega)] at ih
      rw [if_pos (show (k + 1) % 2 = 1 by omega), if_neg (by simpa using heven), raw_add]
      omega
    · rw [if_pos hodd] at ih
      rw [if_neg (show ¬ (k + 1) % 2 = 1 by omega), if_pos (by simpa using hodd), raw_sub]
      omega

/-- Above one **no sum is less than one**. -/
theorem scale_le_sumAt (k : Nat) : scale ≤ (sumAt exponent x k).raw := by
  have h := scale_add_termAt_le_sumAt h0 h1 hx0 hx1 k
  have hterm := termAt_nonneg exponent x k
  split at h <;> omega

end

end WeightedMarket.Fixed
