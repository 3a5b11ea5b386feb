/-
  The side of the curve.

  A balance that grows makes the other side shrink, by at most all of it, and a balance that shrinks
  makes the other side grow.  The curve finds this out from a power of the ratio of the two balances:
  the ratio is on the same side of one as the balances say, rounding included, and so is each of its
  powers, however the rounding errors of the series and of the reduction fall.

  Nothing is refused on the way.  A power of a positive base has an answer, and a ratio that is not
  zero is positive; only a ratio that is too small for eighteen digits is objected to.
-/
import WeightedMarket.Proofs.Power.Side

namespace WeightedMarket

/-! ## Powers on one side of one -/

namespace Fixed

variable {base exponent : Fixed}

/-- **A power of a base of at most one** is between zero and one. -/
theorem exists_raise_le_one (hexponent : 0 ≤ exponent.raw) (hpos : 0 < base.raw) (hle : base.raw ≤ scale) :
    ∃ power, base.raise exponent = .ok power ∧ 0 ≤ power.raw ∧ power.raw ≤ scale := by
  obtain ⟨power, h⟩ := exists_raise hpos hexponent
  exact ⟨power, h, raise_nonneg h, raise_le_scale hle h⟩

/-- **A power of a base of at least one** is at least one. -/
theorem exists_one_le_raise (hexponent : 0 ≤ exponent.raw) (hge : scale ≤ base.raw) :
    ∃ power, base.raise exponent = .ok power ∧ scale ≤ power.raw := by
  obtain ⟨power, h⟩ := exists_raise (Int.lt_of_lt_of_le scale_pos hge) hexponent
  exact ⟨power, h, scale_le_raise hge h⟩

end Fixed

/-! ## What the other side gives up -/

namespace Curve

open Fixed Decision

variable {before after fixedWeight other otherWeight d : Fixed}

/-- The curve answers as soon as its ratio has a positive value. -/
theorem exists_delta (other : Fixed) (hbefore : 0 ≤ before.raw) (hafter : 0 < after.raw)
    (hratio : (before.quo after).raw ≠ 0) (hfixed : 0 ≤ fixedWeight.raw) (hweight : 0 < otherWeight.raw) :
    ∃ d, delta before after fixedWeight other otherWeight = .ok d := by
  have hnonneg := raw_quo_nonneg hbefore hafter.le
  have hpos : 0 < (before.quo after).raw := by omega
  obtain ⟨power, hpower⟩ := exists_raise hpos (raw_quo_nonneg hfixed hweight.le)
  use other.mul (one - power)
  rw [delta, require_eq_ok.mpr (decide_eq_true hafter), ok_bind,
    require_eq_ok.mpr (decide_eq_true hweight), ok_bind, divide_eq_ok hweight.ne', ok_bind,
    divide_eq_ok hafter.ne', ok_bind, hpower, ok_bind]
  rfl

/-- A side that does not shrink takes between nothing and everything from the other. -/
theorem delta_of_le (hbefore : 0 ≤ before.raw) (hother : 0 ≤ other.raw) (hle : before.raw ≤ after.raw)
    (h : delta before after fixedWeight other otherWeight = .ok d) : 0 ≤ d.raw ∧ d.raw ≤ other.raw := by
  obtain ⟨hafter, power, hpower, rfl⟩ := delta_eq_ok h
  have hpower0 := raise_nonneg hpower
  have hpower1 := raise_le_scale (raw_quo_le_scale hbefore hafter hle) hpower
  constructor
  · exact raw_mul_nonneg hother (Int.sub_nonneg_of_le hpower1)
  · exact raw_mul_le_left hother (Int.sub_le_self _ hpower0)

/-- A side that does not grow takes nothing from the other. -/
theorem delta_of_ge (hother : 0 ≤ other.raw) (hge : after.raw ≤ before.raw)
    (h : delta before after fixedWeight other otherWeight = .ok d) : d.raw ≤ 0 := by
  obtain ⟨hafter, power, hpower, rfl⟩ := delta_eq_ok h
  have hpower1 := scale_le_raise (scale_le_raw_quo hafter hge) hpower
  exact raw_mul_nonpos_right hother (Int.sub_nonpos_of_le hpower1)

/-- **The curve** answers on the side that its balances say.  A base of at most one has its powers
between zero and one and a base of at least one has none below one.  So the other side gives up
between nothing and all it has when the fixed side grows, and gives up nothing when it shrinks. -/
theorem delta_side :
    (∀ base exponent : Fixed, 0 ≤ exponent.raw →
      (0 < base.raw → base.raw ≤ scale →
        ∃ power, base.raise exponent = .ok power ∧ 0 ≤ power.raw ∧ power.raw ≤ scale) ∧
      (scale ≤ base.raw → ∃ power, base.raise exponent = .ok power ∧ scale ≤ power.raw)) ∧
    ∀ before after fixedWeight other otherWeight : Fixed,
      0 < before.raw → 0 < after.raw → (before.quo after).raw ≠ 0 →
      0 < fixedWeight.raw → 0 < otherWeight.raw → 0 ≤ other.raw →
      ∃ d, delta before after fixedWeight other otherWeight = .ok d ∧
        (before.raw ≤ after.raw → 0 ≤ d.raw ∧ d.raw ≤ other.raw) ∧
        (after.raw ≤ before.raw → d.raw ≤ 0) := by
  constructor
  · intro base exponent hexponent
    constructor
    · exact exists_raise_le_one hexponent
    · exact exists_one_le_raise hexponent
  · intro before after fixedWeight other otherWeight hbefore hafter hratio hfixed hweight hother
    obtain ⟨d, hd⟩ := exists_delta other hbefore.le hafter hratio hfixed.le hweight
    refine ⟨d, hd, ?_, ?_⟩
    · intro hle
      exact delta_of_le hbefore.le hother hle hd
    · intro hge
      exact delta_of_ge hother hge hd

/-- The smallest base and the smallest exponent are inside, and so is a pool of ten and twenty whose
first side grows by a tenth. -/
theorem delta_side_of_smallest :
    (∃ power, Fixed.raise ⟨1⟩ ⟨1⟩ = .ok power ∧ 0 ≤ power.raw ∧ power.raw ≤ scale) ∧
    (∃ power, Fixed.raise ⟨scale + 1⟩ ⟨1⟩ = .ok power ∧ scale ≤ power.raw) ∧
    ∃ d, delta (ofInt 10) (ofInt 11) (ofInt 1) (ofInt 20) (ofInt 3) = .ok d ∧
      0 ≤ d.raw ∧ d.raw ≤ (ofInt 20).raw := by
  obtain ⟨hpowers, hdelta⟩ := delta_side
  refine ⟨(hpowers ⟨1⟩ ⟨1⟩ (by decide)).1 (by decide) (by decide),
    (hpowers ⟨scale + 1⟩ ⟨1⟩ (by decide)).2 (by decide), ?_⟩
  obtain ⟨d, hd, hgrows, _⟩ := hdelta (ofInt 10) (ofInt 11) (ofInt 1) (ofInt 20) (ofInt 3)
    (by decide) (by decide) (by decide) (by decide) (by decide) (by decide)
  exact ⟨d, hd, hgrows (by decide)⟩

end Curve

end WeightedMarket
