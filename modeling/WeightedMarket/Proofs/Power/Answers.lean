/-
  The series is never given up.

  Both series of a power run at a distance of at most a half from one, where every term is at most half
  the one before it: the twenty-seventh is already below the wanted precision, far from the limit of
  terms.  Neither sum vanishes, because the term before the last one was not small, so the power of
  one half that is inverted is not zero.  A power of a positive base therefore always has an answer
  (`exists_fractionalPower`).
-/
import WeightedMarket.Proofs.Power.Reduction
import WeightedMarket.Proofs.Power.Sign

namespace WeightedMarket.Fixed

open Decision

variable {exponent x precision : Fixed}

/-- A sum that has stopped is positive. -/
theorem sumAt_pos {n : Nat} (h0 : 0 ≤ exponent.raw) (h1 : exponent.raw ≤ scale)
    (hx : 2 * |x.raw| ≤ scale) (hprecision : 0 < precision.raw) (h : StopsAt exponent x precision n) :
    0 < (sumAt exponent x n).raw := by
  cases n with
  | zero => exact scale_pos
  | succ n =>
    -- the term before the last is not small, and the last takes at most half of it away
    have hlarge := le_def.mp (h.goesOn n (Nat.lt_succ_self n))
    have hsum := termAt_le_sumAt h0 h1 hx n
    have hhalf := termAt_shrinks h0 h1 (by decide) hx n
    have hnonneg := termAt_nonneg exponent x (n + 1)
    rw [sumAt]
    split
    · rw [raw_sub]
      omega
    · rw [raw_add]
      omega

/-! ## The series near one -/

/-- The series of a base ends: it adds `n` terms to the first, at most twenty-seven, and comes to
`total` with every limit that allows for so many. -/
structure Converges (base exponent : Fixed) (n : Nat) (total : Fixed) : Prop where
  total_eq : total = sumAt exponent (base - one) n
  few : n ≤ 27
  answers : ∀ limit : Int, 27 ≤ limit → seriesPower base exponent powerPrecision limit = .ok total

/-- **The series near one** ends after twenty-seven terms at most, with a positive sum. -/
theorem exists_converges {base : Fixed} (h0 : 0 ≤ exponent.raw) (h1 : exponent.raw ≤ scale)
    (hx : 2 * |(base - one).raw| ≤ scale) :
    ∃ n total, Converges base exponent n total ∧ 0 < total.raw := by
  by_cases hzero : exponent.raw = 0
  · refine ⟨0, one, ⟨rfl, Nat.zero_le 27, ?_⟩, scale_pos⟩
    intro limit _
    rw [seriesPower, if_pos hzero]
  have hsmall : termAt exponent (base - one) 27 < powerPrecision := by
    have hterm := pow_mul_termAt_le h0 h1 (by decide : (0 : Int) ≤ 2) hx 27
    rw [lt_def]
    simp only [scale, powerPrecision] at hterm ⊢
    omega
  have hnot : ¬ Rounds exponent (base - one) powerPrecision 28 := by
    intro h
    exact Int.not_lt.mpr (h 27 (by omega)).large hsmall
  obtain ⟨n, hn, hrounds, hlast⟩ := exists_last_round hnot
  have hstops := hrounds.stopsAt (small_or_zero_of_not_goesOn hlast)
  refine ⟨n, _, ⟨rfl, by omega, ?_⟩, sumAt_pos h0 h1 hx (by decide) hstops⟩
  intro limit hlimit
  have hsum : sumTerms exponent (base - one) powerPrecision limit.toNat 0 one one false =
      some (sumAt exponent (base - one) n) := by
    rcases Nat.lt_succ_iff_lt_or_eq.mp hn with hless | rfl
    · exact hrounds.answers hlast (by omega)
    · -- the last term that may be needed is small
      exact hrounds.answers_of_small hsmall (by omega)
  rw [seriesPower, if_neg hzero, hsum]

/-- The series near one answers a positive number within the limit of terms. -/
theorem exists_seriesPower {base : Fixed} (h0 : 0 ≤ exponent.raw) (h1 : exponent.raw ≤ scale)
    (hx : 2 * |(base - one).raw| ≤ scale) :
    ∃ total, seriesPower base exponent powerPrecision maxTerms = .ok total ∧ 0 < total.raw := by
  obtain ⟨_, total, hseries, hpos⟩ := exists_converges h0 h1 hx
  exact ⟨total, hseries.answers maxTerms (by decide), hpos⟩

/-! ## Powers -/

/-- **A power of a positive base** with an exponent between zero and one has an answer. -/
theorem exists_fractionalPower {base : Fixed} (hbase : 0 < base.raw) (h0 : 0 ≤ exponent.raw)
    (h1 : exponent.raw ≤ scale) : ∃ power, base.fractionalPower exponent = .ok power := by
  obtain ⟨near, hpower, _⟩ := exists_seriesPower h0 h1 (two_mul_abs_le (reduce_base_near hbase))
  have hnear : 2 * |(half - one).raw| ≤ scale := by decide
  obtain ⟨halfPower, hhalf, hpos⟩ := exists_seriesPower h0 h1 hnear
  rw [fractionalPower, hpower, ok_bind]
  split
  · exact ⟨near, rfl⟩
  rw [hhalf, ok_bind]
  split
  · exact ⟨_, rfl⟩
  · rw [divide_eq_ok (Int.ne_of_gt hpos)]
    exact ⟨_, rfl⟩

/-- **Every power of a positive base** whose exponent is not negative has an answer. -/
theorem exists_raise {base : Fixed} (hbase : 0 < base.raw) (h0 : 0 ≤ exponent.raw) :
    ∃ power, base.raise exponent = .ok power := by
  obtain ⟨power, hpower⟩ := exists_fractionalPower hbase exponent.fraction_nonneg
    (Int.le_of_lt exponent.fraction_lt)
  rw [raise, require_eq_ok.mpr (decide_eq_true hbase), ok_bind, require_eq_ok.mpr (decide_eq_true h0), ok_bind]
  dsimp only
  split
  · exact ⟨_, rfl⟩
  · rw [fraction] at hpower
    rw [hpower, ok_bind]
    exact ⟨_, rfl⟩

end WeightedMarket.Fixed
