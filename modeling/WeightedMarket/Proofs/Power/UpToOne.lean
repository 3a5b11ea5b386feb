/-
  The series of bases up to one.

  There every term is taken away, and none is larger than the exact one.  So whatever the precision, a
  sum lies between the power and one wherever it stops.

  A base nearer to one has smaller terms.  Its series is answered where that of the other base is
  (`exists_seriesPower_of_abs_le`), and what it has taken away is not more, although the two loops run
  different numbers of rounds (`seriesPower_le_seriesPower`).
-/
import WeightedMarket.Proofs.Power.Below
import WeightedMarket.Proofs.Power.Order

namespace WeightedMarket.Fixed

variable {base base' exponent precision power : Fixed} {limit : Int}

/-- A series is answered where that of a base farther from one is. -/
theorem exists_seriesPower_of_abs_le (hne : exponent.raw ≠ 0)
    (hnear : |(base' - one).raw| ≤ |(base - one).raw|)
    (h : base.seriesPower exponent precision limit = .ok power) :
    ∃ power', base'.seriesPower exponent precision limit = .ok power' := by
  rcases hsum' : sumTerms exponent (base' - one) precision limit.toNat 0 one one false with _ | power'
  · -- given up for the nearer base, it would have been for the other
    obtain ⟨hrounds, hlarge⟩ := sumTerms_eq_none hsum'
    have hterm := termAt_le_termAt exponent hnear limit.toNat
    rw [seriesPower, if_neg hne, (hrounds.of_abs_le hnear).gives_up (Int.le_trans hlarge hterm)] at h
    exact absurd h Decision.refuse_ne_ok
  · use power'
    rw [seriesPower, if_neg hne, hsum']

/-- **The series of bases up to one** lie between the power and one, and keep the order of the bases.
Whatever the precision, if the series of a base is answered, then so is that of every base between it
and one. -/
theorem seriesPower_between (hf0 : 0 < exponent.raw) (hf1 : exponent.raw < scale) (hpos : 0 < base.raw)
    (hbase : base ≤ base') (hle : base' ≤ one)
    (h : base.seriesPower exponent precision limit = .ok power) :
    ∃ power', base'.seriesPower exponent precision limit = .ok power' ∧
      base.val ^ exponent.val ≤ power.val ∧ power.val ≤ power'.val ∧ power'.val ≤ 1 := by
  have hone : (one : Fixed).raw = scale := rfl
  have hraw := le_def.mp hbase
  have hraw' := le_def.mp hle
  have hnear : |(base' - one).raw| ≤ |(base - one).raw| := by
    rw [raw_sub, raw_sub]
    exact abs_le_abs_of_nonpos (by omega) (by omega)
  obtain ⟨power', h'⟩ := exists_seriesPower_of_abs_le hf0.ne' hnear h
  refine ⟨power', h', ?large, ?order, ?small⟩
  case large =>
    obtain ⟨hzero, _⟩ | ⟨_, n, rfl, _⟩ := seriesPower_eq_ok h
    · exact absurd hzero hf0.ne'
    · exact power_le_sumAt (val_pos.mpr hf0) (val_lt_one.mpr hf1) (val_pos.mpr hpos)
        (val_le_one.mpr (by omega)) n
  case order => exact val_le_val.mpr (seriesPower_le_seriesPower hf0.le hf1 hraw (by omega) h h')
  case small =>
    obtain ⟨hzero, _⟩ | ⟨_, n, rfl, _⟩ := seriesPower_eq_ok h'
    · exact absurd hzero hf0.ne'
    · refine val_le_one.mpr (sumAt_antitone_below hf0.le hf1 ?_ (Nat.zero_le n))
      rw [raw_sub]
      omega

/-- The square roots of one tenth and of nine tenths, which take 98 rounds and 7. -/
theorem seriesPower_between_of_tenths :
    seriesPower ⟨100000000000000000⟩ half powerPrecision maxTerms = .ok ⟨316227841380551970⟩ ∧
    seriesPower ⟨900000000000000000⟩ half powerPrecision maxTerms = .ok ⟨948683298193359375⟩ ∧
    (⟨100000000000000000⟩ : Fixed).val ^ half.val ≤ (⟨316227841380551970⟩ : Fixed).val ∧
    (⟨316227841380551970⟩ : Fixed).val ≤ (⟨948683298193359375⟩ : Fixed).val ∧
    (⟨948683298193359375⟩ : Fixed).val ≤ 1 := by
  have hfar : seriesPower ⟨100000000000000000⟩ half powerPrecision maxTerms =
      .ok ⟨316227841380551970⟩ := by decide +kernel
  have hnear : seriesPower ⟨900000000000000000⟩ half powerPrecision maxTerms =
      .ok ⟨948683298193359375⟩ := by decide +kernel
  obtain ⟨power', hpower, hlarge, horder, hsmall⟩ :=
    seriesPower_between (by decide) (by decide) (by decide) (show _ ≤ (⟨900000000000000000⟩ : Fixed) by decide)
      (by decide) hfar
  obtain rfl : ⟨948683298193359375⟩ = power' := by
    rw [hnear] at hpower
    cases hpower
    rfl
  exact ⟨hfar, hnear, hlarge, horder, hsmall⟩

end WeightedMarket.Fixed
