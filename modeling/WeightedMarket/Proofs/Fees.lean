/-
  Fees that are taken and fees that are added.

  A seller's amount is multiplied by the complement of the fee, and a buyer's amount is divided by it.  Both
  round down, so that neither undoes the other exactly: each rule of `Fee.kept` and `Fee.gross` is a
  division with its remainder, and two of them in a row are two inequalities in which the amount between
  them cancels.

  Adding a fee and taking it again costs one unit at most.  Taking it first costs as many units as one unit
  that was kept had to be paid with, which is many if the fee is close to one.  In neither order does an
  amount grow.
-/
import Mathlib.Algebra.Order.Field.Rat
import WeightedMarket.Proofs.Quote

namespace WeightedMarket.Fee

variable {amount amount' fee fee' : Fixed}

/-- What is left of an amount after a fee. -/
def kept (amount fee : Fixed) : Fixed := amount.mul (Fixed.one - fee)

/-- What is to be paid so that an amount is left after a fee. -/
def gross (amount fee : Fixed) : Fixed := amount.quo (Fixed.one - fee)

/-- Both are answered for every fee, whatever the amount. -/
theorem answers (h : fee.IsFee) (amount : Fixed) :
    afterFee amount fee = .ok (kept amount fee) ∧ grossUp amount fee = .ok (gross amount fee) :=
  ⟨afterFee_eq_ok.mpr ⟨h, rfl⟩, grossUp_eq_ok.mpr ⟨h, rfl⟩⟩

/-! ## One after the other -/

section

variable (h : fee.IsFee) (hamount : 0 ≤ amount.raw)

include h

theorem complement_le : (Fixed.one - fee).raw ≤ Fixed.scale := Int.sub_le_self _ h.1

include hamount

theorem kept_nonneg : 0 ≤ (kept amount fee).raw := (h.kept_bounds hamount).1

theorem gross_nonneg : 0 ≤ (gross amount fee).raw :=
  Fixed.raw_quo_nonneg hamount (Int.le_of_lt h.complement_pos)

/-- **Added and taken.**  The fee that was added is taken again, and a unit at most is lost. -/
theorem kept_gross_bounds : amount.raw - 1 ≤ (kept (gross amount fee) fee).raw ∧
    (kept (gross amount fee) fee).raw ≤ amount.raw := by
  have hscale := Fixed.scale_pos
  have hle := complement_le h
  have hgross := Fixed.raw_quo_le hamount h.complement_pos
  have hgross' := Fixed.lt_raw_quo amount h.complement_pos
  have hkept := Fixed.raw_mul_le (gross_nonneg h hamount) (Int.le_of_lt h.complement_pos)
  have hkept' := Fixed.lt_raw_mul (gross amount fee) (Fixed.one - fee)
  rw [Int.add_mul, Int.one_mul] at hgross' hkept'
  constructor
  · -- both remainders together are less than two units
    have hlt : amount.raw * Fixed.scale < ((kept (gross amount fee) fee).raw + 2) * Fixed.scale := by
      rw [Int.add_mul]
      simp only [kept, gross] at hgross' hkept' ⊢
      omega
    have := Int.lt_of_mul_lt_mul_right hlt (Int.le_of_lt hscale)
    omega
  · exact Int.le_of_mul_le_mul_right (Int.le_trans hkept hgross) hscale

/-- **Taken and added.**  What the fee has left is grossed up again to no more than there was, and what is
lost is less than a unit and what pays for a unit that is kept. -/
theorem gross_kept_bounds :
    amount.raw * (Fixed.one - fee).raw <
      ((gross (kept amount fee) fee).raw + 1) * (Fixed.one - fee).raw + Fixed.scale ∧
    (gross (kept amount fee) fee).raw ≤ amount.raw := by
  have hkept := Fixed.raw_mul_le hamount (Int.le_of_lt h.complement_pos)
  have hkept' := Fixed.lt_raw_mul amount (Fixed.one - fee)
  have hgross := Fixed.raw_quo_le (kept_nonneg h hamount) h.complement_pos
  have hgross' := Fixed.lt_raw_quo (kept amount fee) h.complement_pos
  rw [Int.add_mul, Int.one_mul] at hkept'
  constructor
  · simp only [kept, gross] at hgross' ⊢
    omega
  · exact Int.le_of_mul_le_mul_right (Int.le_trans hgross hkept) h.complement_pos

end

/-! ## Order -/

/-- Of a larger amount more is kept. -/
theorem kept_mono (h : fee.IsFee) (hle : amount ≤ amount') : kept amount fee ≤ kept amount' fee :=
  Int.tdiv_le_tdiv Fixed.scale_pos
    (Int.mul_le_mul_of_nonneg_right hle (Int.le_of_lt h.complement_pos))

/-- A larger amount is grossed up to more. -/
theorem gross_mono (h : fee.IsFee) (hle : amount ≤ amount') : gross amount fee ≤ gross amount' fee :=
  Fixed.raw_quo_le_raw_quo h.complement_pos hle

/-- Of the same amount less is kept for a higher fee. -/
theorem kept_anti (h' : fee'.IsFee) (hfee : fee ≤ fee') (hamount : 0 ≤ amount.raw) :
    kept amount fee' ≤ kept amount fee :=
  h'.kept_le_kept hamount (Int.le_refl _) hfee

/-- The same amount is grossed up to more for a higher fee. -/
theorem gross_mono_fee (h' : fee'.IsFee) (hfee : fee ≤ fee') (hamount : 0 ≤ amount.raw) :
    gross amount fee ≤ gross amount fee' :=
  Fixed.raw_quo_le_raw_quo_left hamount h'.complement_pos (Int.sub_le_sub_left hfee _)

/-- **Fees are undone up to rounding, and never in favour of who pays them.**  For every fee there is a
complement, and both the amount after the fee and the amount to pay are answered for every amount.  Of an
amount that is not negative, paying for it and taking the fee leaves it, or one unit less; taking the fee
and paying for the rest comes to at most the amount, and to less than a unit and what one kept unit costs
below it.  Both rise with the amount; with the fee what is kept falls and what is to be paid rises. -/
theorem kept_and_gross_inverse (h : fee.IsFee) :
    ∃ rest, complement fee = .ok rest ∧ rest.raw = Fixed.scale - fee.raw ∧
      (∀ amount, afterFee amount fee = .ok (kept amount fee) ∧
        grossUp amount fee = .ok (gross amount fee)) ∧
      (∀ amount : Fixed, 0 ≤ amount.raw →
        ((kept (gross amount fee) fee).raw = amount.raw ∨
          (kept (gross amount fee) fee).raw = amount.raw - 1) ∧
        (amount.raw - 10 ^ 18 / rest.raw - 1 : ℚ) < (gross (kept amount fee) fee).raw ∧
        (gross (kept amount fee) fee).raw ≤ amount.raw) ∧
      (∀ amount amount' : Fixed, amount ≤ amount' →
        kept amount fee ≤ kept amount' fee ∧ gross amount fee ≤ gross amount' fee) ∧
      ∀ fee' : Fixed, fee'.IsFee → fee ≤ fee' → ∀ amount : Fixed, 0 ≤ amount.raw →
        kept amount fee' ≤ kept amount fee ∧ gross amount fee ≤ gross amount fee' := by
  refine ⟨Fixed.one - fee, complement_eq_ok.mpr ⟨h, rfl⟩, rfl, answers h, fun amount hamount => ?inverse,
    fun amount amount' hle => ⟨kept_mono h hle, gross_mono h hle⟩,
    fun fee' h' hfee amount hamount => ⟨kept_anti h' hfee hamount, gross_mono_fee h' hfee hamount⟩⟩
  case inverse =>
    obtain ⟨hge, hle⟩ := kept_gross_bounds h hamount
    obtain ⟨hlost, hback⟩ := gross_kept_bounds h hamount
    refine ⟨by omega, ?_, hback⟩
    have hpos : (0 : ℚ) < (Fixed.one - fee).raw := by exact_mod_cast h.complement_pos
    have hscale : (Fixed.scale : ℚ) = 10 ^ 18 := by norm_num [Fixed.scale]
    have hcast : (amount.raw : ℚ) * (Fixed.one - fee).raw <
        ((gross (kept amount fee) fee).raw + 1) * (Fixed.one - fee).raw + 10 ^ 18 := by
      rw [← hscale]
      exact_mod_cast hlost
    have hquotient : (amount.raw : ℚ) < (gross (kept amount fee) fee).raw + 1 +
        10 ^ 18 / (Fixed.one - fee).raw := by
      rw [← mul_lt_mul_iff_left₀ hpos, add_mul, div_mul_cancel₀ _ hpos.ne']
      exact hcast
    linarith

/-- The largest fee: it leaves one unit of one. -/
def largest : Fixed := ⟨999999999999999999⟩

/-- At the largest fee one and a half is paid for exactly; if the fee is taken first, one unit is kept, which
is worth one, and the half is lost. -/
theorem kept_and_gross_inverse_of_largest : largest.IsFee ∧
    kept (gross ⟨1500000000000000000⟩ largest) largest = ⟨1500000000000000000⟩ ∧
    gross (kept ⟨1500000000000000000⟩ largest) largest = .one ∧
    (1500000000000000000 - 10 ^ 18 / (Fixed.scale - largest.raw : Int) - 1 : ℚ) < Fixed.one.raw ∧
    kept ⟨1500000000000000000⟩ largest ≤ kept ⟨1500000000000000000⟩ .zero := by
  have hlargest : largest.IsFee := by decide
  have hnone : Fixed.zero.IsFee := by decide
  have hback : gross (kept ⟨1500000000000000000⟩ largest) largest = .one := by decide
  obtain ⟨rest, _, hrest, _, hinverse, _⟩ := kept_and_gross_inverse hlargest
  obtain ⟨_, _, _, _, _, _, hfees⟩ := kept_and_gross_inverse hnone
  have hlost := (hinverse ⟨1500000000000000000⟩ (by decide)).2.1
  rw [hback, hrest] at hlost
  exact ⟨hlargest, by decide, hback, hlost, (hfees largest hlargest (by decide) _ (by decide)).1⟩

end WeightedMarket.Fee
