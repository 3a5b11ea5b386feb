/-
  The amount that a text denotes.

  A text denotes the number that it spells.  The reader shifts the number by eighteen places, cuts it to
  120 digits and drops what is left behind the point, so it rounds twice; but a number below 10¹⁰² has at most
  120 digits before the shifted point, and the cut touches only digits that are dropped anyway
  (`Decimal.toInt_cut_of_nonpos`).  What is read is the number truncated once (`Fixed.ofDecimal_eq_truncated`),
  whatever text it comes from, and larger numbers are read as larger amounts (`Fixed.truncated_le`).

  The place of the last digit is limited, too: the reader refuses a numeral whose digits go on for more than
  10¹⁸ places after the point, if a text of that length could be held anywhere.
-/
import Mathlib.Algebra.Order.Field.Power
import Mathlib.Data.Rat.Floor
import Mathlib.Tactic.Positivity
import WeightedMarket.Proofs.Rounding
import WeightedMarket.Proofs.Text.Spelling

namespace WeightedMarket

/-! ## Magnitudes -/

namespace Decimal

variable {d : Decimal}

theorem magnitude_nonneg (d : Decimal) : 0 ≤ d.magnitude := by
  rw [magnitude]
  positivity

/-- The magnitude of a decimal is what it is without its sign. -/
theorem abs_value (d : Decimal) : |d.value| = d.magnitude := by
  rw [value]
  split
  · rw [abs_neg, abs_of_nonneg d.magnitude_nonneg]
  · exact abs_of_nonneg d.magnitude_nonneg

/-- The power of ten of the leading digit is a lower bound. -/
theorem pow_adjusted_le (h : d.coefficient ≠ 0) : (10 : ℚ) ^ d.adjusted ≤ d.magnitude := by
  have hpos := digitCount_pos d.coefficient
  have hlow : (10 : ℚ) ^ (digitCount d.coefficient - 1) ≤ d.coefficient := by
    exact_mod_cast pow_le_of_ne_zero h
  have hadjusted : d.adjusted = ((digitCount d.coefficient - 1 : Nat) : Int) + d.exponent := by
    rw [adjusted]
    omega
  rw [hadjusted, zpow_add₀ (by norm_num), zpow_natCast, magnitude]
  exact mul_le_mul_of_nonneg_right hlow (by positivity)

/-- The next power of ten is an upper bound. -/
theorem magnitude_lt_pow (d : Decimal) : d.magnitude < 10 ^ (d.adjusted + 1) := by
  have hhigh : (d.coefficient : ℚ) < 10 ^ digitCount d.coefficient := by
    exact_mod_cast lt_pow_digitCount d.coefficient
  have hadjusted : d.adjusted + 1 = (digitCount d.coefficient : Int) + d.exponent := by
    rw [adjusted]
    omega
  rw [hadjusted, zpow_add₀ (by norm_num), zpow_natCast, magnitude]
  exact mul_lt_mul_of_pos_right hhigh (by positivity)

/-- A number below a power of ten starts behind that place. -/
theorem adjusted_lt {k : Int} (h : d.coefficient ≠ 0) (hlt : d.magnitude < 10 ^ k) : d.adjusted < k :=
  (zpow_lt_zpow_iff_right₀ (by norm_num : (1 : ℚ) < 10)).mp ((pow_adjusted_le h).trans_lt hlt)

/-! ## Integer parts -/

/-- A decimal with places after the point is cut at the point. -/
theorem toInt_of_nonpos (h : d.exponent ≤ 0) :
    d.toInt = signed d.negative (d.coefficient / 10 ^ (-d.exponent).toNat) := by
  have hmagnitude : (if 0 ≤ d.exponent then d.coefficient * Nat.pow 10 d.exponent.toNat
      else d.coefficient / Nat.pow 10 (-d.exponent).toNat) =
      d.coefficient / 10 ^ (-d.exponent).toNat := by
    split
    · have hzero : d.exponent = 0 := by omega
      rw [hzero]
      exact (Nat.mul_one _).trans (Nat.div_one _).symm
    · rfl
  rw [toInt, hmagnitude]
  rfl

/-- The integer part, by its magnitude. -/
theorem toInt_eq_floor (d : Decimal) : d.toInt = signed d.negative ⌊d.magnitude⌋₊ := by
  rcases Int.le_total 0 d.exponent with hwhole | hdecimals
  · obtain ⟨k, hk⟩ := Int.eq_ofNat_of_zero_le hwhole
    have hmagnitude : d.magnitude = ((d.coefficient * 10 ^ k : Nat) : ℚ) := by
      rw [magnitude, hk, zpow_natCast]
      push_cast
      rfl
    rw [hmagnitude, Nat.floor_natCast, toInt, if_pos hwhole, hk]
    rfl
  · obtain ⟨k, hk⟩ := Int.eq_ofNat_of_zero_le (Int.neg_nonneg_of_nonpos hdecimals)
    have hmagnitude : d.magnitude = (d.coefficient : ℚ) / ((10 ^ k : Nat) : ℚ) := by
      have hexponent : d.exponent = -(k : Int) := by omega
      rw [magnitude, hexponent, zpow_neg, zpow_natCast, div_eq_mul_inv]
      push_cast
      rfl
    rw [toInt_of_nonpos hdecimals, hmagnitude, Rat.natFloor_natCast_div_natCast, hk, Int.toNat_natCast]

/-- A number whose digits all stand behind the point has no integer part. -/
theorem floor_magnitude_eq_zero (h : d.coefficient = 0 ∨ d.adjusted < 0) : ⌊d.magnitude⌋₊ = 0 := by
  refine Nat.floor_eq_zero.mpr ?_
  rcases h with hzero | hsmall
  · rw [magnitude, hzero]
    norm_num
  · calc d.magnitude < 10 ^ (d.adjusted + 1) := d.magnitude_lt_pow
      _ ≤ 10 ^ (0 : Int) := zpow_le_zpow_right₀ (by norm_num) (by omega)
      _ = 1 := zpow_zero _

/-- **Cutting** digits behind the point leaves the integer part as it is. -/
theorem toInt_cut_of_nonpos (h : d.exponent + excessDigits d.coefficient ≤ 0) : d.cut.toInt = d.toInt := by
  have hcut : d.cut = ⟨d.negative, d.coefficient / 10 ^ excessDigits d.coefficient,
      d.exponent + excessDigits d.coefficient⟩ := rfl
  have hplaces : excessDigits d.coefficient + (-(d.exponent + excessDigits d.coefficient)).toNat =
      (-d.exponent).toNat := by omega
  rw [toInt_of_nonpos (by omega : d.exponent ≤ 0), hcut, toInt_of_nonpos h, Nat.div_div_eq_div_mul,
    ← Nat.pow_add, hplaces]

/-- A number that has no more digits in front of the point than the context keeps has its integer part
after the cut. -/
theorem toInt_cut (h : d.adjusted < precision) : d.cut.toInt = d.toInt := by
  rw [adjusted] at h
  rcases Nat.le_total (digitCount d.coefficient) precision with hshort | hlong
  · rw [Fixed.cut_eq_self hshort]
  · refine toInt_cut_of_nonpos ?_
    rw [excessDigits]
    omega

end Decimal

/-! ## Truncated numbers -/

namespace Fixed

/-- The amount closest to a number that is not further from zero. -/
def truncated (q : ℚ) : Fixed := ⟨if 0 ≤ q then ⌊q * scale⌋ else ⌈q * scale⌉⟩

theorem cast_scale_pos : (0 : ℚ) < scale := Int.cast_pos.mpr scale_pos

/-- Truncation keeps the order. -/
theorem truncated_le {q r : ℚ} (h : q ≤ r) : truncated q ≤ truncated r := by
  have hscaled : q * scale ≤ r * scale := mul_le_mul_of_nonneg_right h cast_scale_pos.le
  rw [Fixed.le_def, truncated, truncated]
  dsimp only
  split
  · next hq =>
    rw [if_pos (hq.trans h)]
    exact Int.floor_le_floor hscaled
  · next hq =>
    split
    · next hr =>
      -- the two lie on different sides of zero
      have hceil : ⌈q * scale⌉ ≤ 0 :=
        Int.ceil_le.mpr (by exact_mod_cast mul_nonpos_of_nonpos_of_nonneg (not_le.mp hq).le cast_scale_pos.le)
      have hfloor : 0 ≤ ⌊r * scale⌋ := Int.floor_nonneg.mpr (mul_nonneg hr cast_scale_pos.le)
      exact hceil.trans hfloor
    · exact Int.ceil_le_ceil hscaled

/-- A decimal value, truncated. -/
theorem truncated_value (d : Decimal) :
    truncated d.value = ⟨Decimal.signed d.negative ⌊d.magnitude * scale⌋₊⟩ := by
  have hmagnitude := mul_nonneg d.magnitude_nonneg cast_scale_pos.le
  have hfloor : ((⌊d.magnitude * scale⌋₊ : Nat) : Int) = ⌊d.magnitude * scale⌋ :=
    Int.natCast_floor_eq_floor hmagnitude
  rw [truncated, Decimal.value, Decimal.signed, hfloor]
  split
  · split
    · next hnegative =>
      -- a number and its opposite are both at least zero
      have hzero : d.magnitude = 0 := by linarith [d.magnitude_nonneg]
      simp [hzero]
    · rw [neg_mul, Int.ceil_neg]
  · rw [if_pos d.magnitude_nonneg]

/-- The value in units of the last place. -/
def scaled (d : Decimal) : Decimal := { d with exponent := d.exponent + 18 }

/-- Scaling a decimal scales its magnitude. -/
theorem magnitude_scaled (d : Decimal) : (scaled d).magnitude = d.magnitude * scale := by
  have hpower : (10 : ℚ) ^ (d.exponent + 18) = 10 ^ d.exponent * scale := by
    rw [zpow_add₀ (by norm_num), scale]
    norm_num
  rw [Decimal.magnitude.eq_def d, mul_assoc, ← hpower]
  rfl

/-- **A number below 10¹⁰²** is read truncated. -/
theorem ofDecimal_eq_truncated {d : Decimal} (h : |d.value| < 10 ^ 102) :
    ofDecimal d = .ok (truncated d.value) := by
  have hbound : (scaled d).magnitude < 10 ^ (120 : Int) := by
    rw [Decimal.abs_value] at h
    rw [magnitude_scaled, scale]
    norm_num at h ⊢
    linarith
  rw [truncated_value, ← magnitude_scaled]
  show (if (scaled d).coefficient = 0 ∨ (scaled d).adjusted < 0 then Except.ok zero
    else if (scaled d).overflows then refuse .overflow else .ok ⟨(scaled d).cut.toInt⟩) = _
  split
  · next hzero =>
    rw [Decimal.floor_magnitude_eq_zero hzero]
    cases d.negative <;> rfl
  · next hzero =>
    have hadjusted := Decimal.adjusted_lt (not_or.mp hzero).1 hbound
    rw [if_neg, Decimal.toInt_cut hadjusted, Decimal.toInt_eq_floor]
    · rfl
    · rw [Decimal.overflows, Bool.and_eq_true, decide_eq_true_iff, Decimal.maxAdjusted]
      omega

end Fixed

/-! ## Texts -/

namespace Numeral

namespace Spelling

variable {n : Spelling} {s : String}

/-- The digits are among the characters of the text. -/
theorem length_decimals_le (h : n.Spells s) : n.decimals.length ≤ s.length := by
  obtain ⟨lead, body, trail, hs, -, -, hbody⟩ := h
  have hfilter := List.length_filter_le (· != '_') body
  have hpointed : n.decimals.length ≤ (pointed n.fraction).length := by
    rw [decimals]
    cases n.fraction with
    | none => exact Nat.zero_le _
    | some ds => exact Nat.le_succ _
  rw [hbody, chars] at hfilter
  rw [← String.length_toList, hs]
  simp only [List.length_append] at hfilter ⊢
  omega

/-- A small number with a moderate power of ten is within reach, unless its digits never end. -/
theorem inReach_decimal (hexponent : n.exponent.natAbs ≤ 10 ^ 17) (hvalue : |n.value| < 10 ^ 102)
    (hlength : n.decimals.length ≤ 10 ^ 18) : inReach n.decimal = true := by
  have hadjusted : n.decimal.adjusted ≤ maxAdjusted := by
    by_cases hzero : n.decimal.coefficient = 0
    · have hcount : digitCount n.decimal.coefficient = 1 := by rw [hzero]; rfl
      rw [Decimal.adjusted, hcount, maxAdjusted]
      show n.exponent - n.decimals.length + _ - _ ≤ _
      omega
    · rw [← value_decimal, Decimal.abs_value] at hvalue
      have hlt := Decimal.adjusted_lt (k := 102) hzero (by exact_mod_cast hvalue)
      rw [maxAdjusted]
      omega
  rw [inReach, Bool.and_eq_true, decide_eq_true_iff, decide_eq_true_iff]
  refine ⟨?_, hadjusted⟩
  show minExponent ≤ n.exponent - n.decimals.length
  rw [minExponent]
  omega

end Spelling

/-- A text **denotes** the number of a spelling of it whose power of ten is of a moderate size. -/
def Denotes (s : String) (q : ℚ) : Prop :=
  ∃ n : Spelling, n.Spells s ∧ n.exponent.natAbs ≤ 10 ^ 17 ∧ n.value = q

end Numeral

namespace Fixed

open Numeral Text

variable {s : String} {q : ℚ}

/-- A text is read as the number that it spells, truncated, unless it is longer than any text can be. -/
theorem ofText_eq_truncated (h : Denotes s q) (hq : |q| < 10 ^ 102) :
    ofText s = .ok (truncated q) ∨ 10 ^ 18 < s.length ∧ ofText s = refuse (.badNumeral s) := by
  obtain ⟨n, hspells, hexponent, rfl⟩ := h
  rw [ofText, n.ofText_of_spells hspells, reached]
  by_cases hreach : inReach n.decimal = true
  · left
    rw [if_pos hreach, ← n.value_decimal]
    exact ofDecimal_eq_truncated (by rwa [n.value_decimal])
  · right
    rw [if_neg hreach]
    refine ⟨?_, rfl⟩
    by_contra hlength
    have hdecimals := Spelling.length_decimals_le hspells
    exact hreach (Spelling.inReach_decimal hexponent hq (hdecimals.trans (by omega)))

/-- What is read from a text is the number that it denotes, truncated. -/
theorem eq_truncated_of_ofText {a : Fixed} (h : Denotes s q) (hq : |q| < 10 ^ 102) (ha : ofText s = .ok a) :
    a = truncated q := by
  rcases ofText_eq_truncated h hq with hread | ⟨-, hread⟩
  · rw [hread] at ha
    exact (Except.ok.inj ha).symm
  · rw [hread] at ha
    cases ha

/-- **A text denotes an amount**: whatever its form and however many digits it has, a text of a number
below 10¹⁰² is read as the number truncated toward zero; only a text of more than 10¹⁸ characters may be
refused.  So texts of the same number are read as the same amount, and a larger number never as a smaller
amount. -/
theorem ofText_denotes (h : Denotes s q) (hq : |q| < 10 ^ 102) :
    (ofText s = .ok (truncated q) ∨ 10 ^ 18 < s.length ∧ ofText s = refuse (.badNumeral s)) ∧
    ∀ t r a b, Denotes t r → |r| < 10 ^ 102 → ofText s = .ok a → ofText t = .ok b →
      (q = r → a = b) ∧ (q ≤ r → a ≤ b) := by
  refine ⟨ofText_eq_truncated h hq, fun t r a b ht hr ha hb => ?_⟩
  rw [eq_truncated_of_ofText h hq ha, eq_truncated_of_ofText ht hr hb]
  exact ⟨fun heq => by rw [heq], truncated_le⟩

/-- Digits of two scripts with an underscore between them, a power of ten and a blank. -/
def mixedSpelling : Spelling where
  sign := .minus
  whole := ['1', '٢']
  fraction := some ['9', '9']
  power := some ⟨true, .minus, ['1', '8'], isDecimal_of_all (by decide), by decide⟩
  isDecimal_whole := isDecimal_of_all (by decide)
  isDecimal_fraction := isDecimal_of_all (by decide)
  ne_nil := by decide

theorem value_mixedSpelling : mixedSpelling.value = -1299 / 10 ^ 20 := by
  have hsign : mixedSpelling.sign.isMinus = true := rfl
  have hwhole : runValue mixedSpelling.whole = 12 := by decide
  have hdecimals : runValue mixedSpelling.decimals = 99 := by decide
  have hlength : mixedSpelling.decimals.length = 2 := rfl
  have hexponent : mixedSpelling.exponent = -18 := by decide
  rw [Spelling.value, if_pos hsign, Spelling.magnitude, hwhole, hdecimals, hlength, hexponent]
  norm_num

/-- The text denotes −12.99 units, which are read as −12. -/
theorem mixed_denotes :
    Denotes " -1_٢.99E-18" (-1299 / 10 ^ 20) ∧ |(-1299 / 10 ^ 20 : ℚ)| < 10 ^ 102 ∧
      ofText " -1_٢.99E-18" = .ok ⟨-12⟩ := by
  have hspells : mixedSpelling.Spells " -1_٢.99E-18" :=
    ⟨[' '], "-1_٢.99E-18".toList, [], by decide, List.forall_mem_singleton.mpr rfl, nofun, by decide⟩
  have hdenotes : Denotes " -1_٢.99E-18" (-1299 / 10 ^ 20) :=
    ⟨mixedSpelling, hspells, by decide, value_mixedSpelling⟩
  have hsmall : |(-1299 / 10 ^ 20 : ℚ)| < 10 ^ 102 := by norm_num [abs_lt]
  have htruncated : truncated (-1299 / 10 ^ 20) = ⟨-12⟩ := by
    rw [truncated, if_neg (by norm_num), scale]
    refine congrArg Fixed.mk (Int.ceil_eq_iff.mpr ?_)
    norm_num
  obtain ⟨hread | ⟨hlength, -⟩, -⟩ := ofText_denotes hdenotes hsmall
  · exact ⟨hdenotes, hsmall, hread.trans (congrArg Except.ok htruncated)⟩
  · exact absurd hlength (by decide)

end Fixed

end WeightedMarket
