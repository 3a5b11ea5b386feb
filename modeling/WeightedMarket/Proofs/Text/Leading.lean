/-
  What is left of an amount that is printed and read again.

  Printer and reader carry an amount through the same context of 120 digits, which rounds toward zero.  The
  printer drops the digits after the first 120 and writes zeros where they stood before the point; the
  reader counts those zeros as digits again, drops as many of them, and puts them back.  So both together
  keep the leading 120 digits and replace the rest by zeros (`Fixed.ofText_text_eq`): nothing is lost of an
  amount of at most 120 digits (`Fixed.ofText_text`), a longer one only comes closer to zero, and the second
  time around nothing changes any more (`Fixed.leading_leading`).  Whole units stay whole, however long the
  amount is (`Fixed.pow_dvd_of_ofText`).
-/
import WeightedMarket.Proofs.Text.Numerals

namespace WeightedMarket

/-! ## Digits of products and quotients -/

/-- A number has more than some digits exactly if it is at least the power of ten with as many zeros. -/
theorem lt_digitCount_iff {n k : Nat} (hn : n ≠ 0) : k < digitCount n ↔ 10 ^ k ≤ n := by
  rcases Nat.eq_zero_or_pos k with rfl | hk
  · exact iff_of_true (digitCount_pos n) (Nat.one_le_iff_ne_zero.mpr hn)
  · rw [← Nat.not_le, digitCount_le_iff hk, Nat.not_lt]

/-- A number is below the power of ten with as many zeros as it has digits. -/
theorem lt_pow_digitCount (n : Nat) : n < 10 ^ digitCount n :=
  (digitCount_le_iff (digitCount_pos n)).mp (Nat.le_refl _)

theorem pow_le_of_ne_zero {n : Nat} (hn : n ≠ 0) : 10 ^ (digitCount n - 1) ≤ n :=
  (lt_digitCount_iff hn).mp (Nat.sub_lt (digitCount_pos n) Nat.one_pos)

theorem lt_pow_of_lt {n k m : Nat} (h : n < 10 ^ k) (hk : k ≤ m) : n < 10 ^ m :=
  h.trans_le (Nat.pow_le_pow_right (by decide) hk)

/-- A number below a power of ten has no more digits than that has zeros. -/
theorem digitCount_le_of_lt {n k m : Nat} (h : n < 10 ^ k) (hk : k ≤ m) (hm : 0 < m) :
    digitCount n ≤ m :=
  (digitCount_le_iff hm).mpr (lt_pow_of_lt h hk)

/-- A number between two powers of ten has as many digits as the upper one has zeros. -/
theorem digitCount_eq {n k : Nat} (hlow : 10 ^ k ≤ n) (hhigh : n < 10 ^ (k + 1)) :
    digitCount n = k + 1 := by
  have hn : n ≠ 0 := (Nat.lt_of_lt_of_le (Nat.pow_pos (by decide)) hlow).ne'
  have hle := (digitCount_le_iff (Nat.succ_pos k)).mpr hhigh
  have hlt := (lt_digitCount_iff hn).mpr hlow
  omega

/-- Zeros that are appended are counted. -/
theorem digitCount_mul_pow {n : Nat} (hn : n ≠ 0) (k : Nat) :
    digitCount (n * 10 ^ k) = digitCount n + k := by
  have hpos := digitCount_pos n
  have hlow := Nat.mul_le_mul_right (10 ^ k) (pow_le_of_ne_zero hn)
  have hhigh := Nat.mul_lt_mul_of_pos_right (lt_pow_digitCount n) (Nat.pow_pos (n := k) (a := 10) (by decide))
  rw [← Nat.pow_add] at hlow hhigh
  have hcount := digitCount_eq (k := digitCount n - 1 + k) hlow (by
    rwa [show digitCount n - 1 + k + 1 = digitCount n + k by omega])
  omega

/-! ## Leading digits -/

/-- The digits of a number that the context drops. -/
def excessDigits (n : Nat) : Nat := digitCount n - Decimal.precision

/-- The number that the leading 120 digits make with zeros in place of the others. -/
def leadingPart (n : Nat) : Nat := n / 10 ^ excessDigits n * 10 ^ excessDigits n

@[simp] theorem leadingPart_zero : leadingPart 0 = 0 := by decide

theorem leadingPart_le (n : Nat) : leadingPart n ≤ n := Nat.div_mul_le_self n _

/-- A number with few enough digits is its own leading part. -/
theorem leadingPart_of_lt {n : Nat} (h : n < 10 ^ Decimal.precision) : leadingPart n = n := by
  have hexcess : excessDigits n = 0 := Nat.sub_eq_zero_of_le ((digitCount_le_iff (by decide)).mpr h)
  rw [leadingPart, hexcess, Nat.pow_zero, Nat.div_one, Nat.mul_one]

/-- Zeros in place of the dropped digits leave the number of digits as it is. -/
theorem digitCount_leadingPart (n : Nat) : digitCount (leadingPart n) = digitCount n := by
  rcases Nat.eq_zero_or_pos n with rfl | hn
  · rw [leadingPart_zero]
  · have hpos := digitCount_pos n
    have hexcess : excessDigits n ≤ digitCount n - 1 := by
      simp only [excessDigits, Decimal.precision]
      omega
    have hlow : 10 ^ (digitCount n - 1) ≤ leadingPart n := by
      -- a multiple of the power that is dropped, so it stays below what is left
      have hquotient : 10 ^ (digitCount n - 1 - excessDigits n) ≤ n / 10 ^ excessDigits n := by
        rw [Nat.le_div_iff_mul_le (Nat.pow_pos (by decide)), ← Nat.pow_add, Nat.sub_add_cancel hexcess]
        exact pow_le_of_ne_zero hn.ne'
      have hproduct := Nat.mul_le_mul_right (10 ^ excessDigits n) hquotient
      rwa [← Nat.pow_add, Nat.sub_add_cancel hexcess] at hproduct
    have hhigh := Nat.lt_of_le_of_lt (leadingPart_le n) (lt_pow_digitCount n)
    rw [digitCount_eq hlow (by rwa [Nat.sub_add_cancel hpos]), Nat.sub_add_cancel hpos]

/-- The leading part is as long as the number, so as many digits of it are in excess. -/
theorem excessDigits_leadingPart (n : Nat) : excessDigits (leadingPart n) = excessDigits n := by
  rw [excessDigits, digitCount_leadingPart, excessDigits]

/-- What was dropped once is not dropped again. -/
theorem leadingPart_leadingPart (n : Nat) : leadingPart (leadingPart n) = leadingPart n := by
  rw [leadingPart.eq_def (leadingPart n), excessDigits_leadingPart]
  exact Nat.div_mul_cancel (Nat.dvd_mul_left _ _)

/-- A multiple of a power of ten is one with zeros in place of its last digits, too. -/
theorem pow_dvd_leadingPart {n k : Nat} (h : 10 ^ k ∣ n) : 10 ^ k ∣ leadingPart n := by
  rcases Nat.le_total (excessDigits n) k with hle | hle
  · rwa [leadingPart, Nat.div_mul_cancel (Nat.dvd_trans (Nat.pow_dvd_pow 10 hle) h)]
  · exact Nat.dvd_mul_left_of_dvd (Nat.pow_dvd_pow 10 hle) _

/-- Zeros at the end are not among the leading digits, or are kept as zeros. -/
theorem leadingPart_mul_pow (n k : Nat) : leadingPart (n * 10 ^ k) = leadingPart n * 10 ^ k := by
  rcases Nat.eq_zero_or_pos n with rfl | hn
  · rw [Nat.zero_mul, leadingPart_zero, Nat.zero_mul]
  · have hcount := digitCount_mul_pow hn.ne' k
    rcases Nat.lt_or_ge (digitCount n) Decimal.precision with hshort | hlong
    · -- at most the zeros at the end are dropped
      have hexcess : excessDigits (n * 10 ^ k) ≤ k := by
        rw [excessDigits, hcount]
        omega
      have hdvd : 10 ^ excessDigits (n * 10 ^ k) ∣ n * 10 ^ k :=
        Nat.dvd_mul_left_of_dvd (Nat.pow_dvd_pow 10 hexcess) n
      rw [leadingPart, Nat.div_mul_cancel hdvd, leadingPart_of_lt]
      exact (digitCount_le_iff (by decide)).mp hshort.le
    · have hexcess : excessDigits (n * 10 ^ k) = excessDigits n + k := by
        rw [excessDigits, excessDigits, hcount]
        omega
      rw [leadingPart, leadingPart, hexcess, Nat.pow_add,
        Nat.mul_div_mul_right _ _ (Nat.pow_pos (by decide)), Nat.mul_assoc]

namespace Decimal

/-- A magnitude with its sign. -/
def signed (negative : Bool) (n : Nat) : Int := if negative then -n else n

@[simp] theorem natAbs_signed (negative : Bool) (n : Nat) : (signed negative n).natAbs = n := by
  cases negative <;> simp [signed]

theorem dvd_signed {m n : Nat} (h : m ∣ n) (negative : Bool) : (m : Int) ∣ signed negative n := by
  rw [← Int.natAbs_dvd_natAbs, natAbs_signed]
  exact h

theorem signed_natAbs (n : Int) : signed (decide (n < 0)) n.natAbs = n := by
  rw [signed]
  split
  · next h => rw [decide_eq_true_iff] at h; omega
  · next h => rw [decide_eq_true_iff] at h; omega

/-- **Cutting** a value without decimals keeps its leading part. -/
theorem toInt_cut_of_nonneg {d : Decimal} (h : 0 ≤ d.exponent) :
    d.cut.toInt = signed d.negative (leadingPart (d.coefficient * 10 ^ d.exponent.toNat)) := by
  obtain ⟨negative, c, e⟩ := d
  have hexponent : 0 ≤ e + (excessDigits c : Int) := Int.add_nonneg h (Int.natCast_nonneg _)
  have hcut : cut ⟨negative, c, e⟩ = ⟨negative, c / 10 ^ excessDigits c, e + excessDigits c⟩ := rfl
  have hint : (cut ⟨negative, c, e⟩).toInt =
      signed negative (c / 10 ^ excessDigits c * 10 ^ (e + excessDigits c).toNat) := by
    rw [hcut, toInt]
    dsimp only
    rw [if_pos hexponent]
    rfl
  rw [hint, leadingPart_mul_pow, Int.toNat_add h (Int.natCast_nonneg _), Int.toNat_natCast,
    Nat.add_comm, Nat.pow_add, ← Nat.mul_assoc, leadingPart]

end Decimal

/-! ## Amounts -/

namespace Fixed

/-- The amount that the leading 120 digits make, with zeros in place of the others. -/
def leading (a : Fixed) : Fixed := ⟨Decimal.signed (decide (a.raw < 0)) (leadingPart a.raw.natAbs)⟩

variable {a : Fixed}

@[simp] theorem natAbs_leading (a : Fixed) : a.leading.raw.natAbs = leadingPart a.raw.natAbs :=
  Decimal.natAbs_signed _ _

/-- A short amount loses nothing. -/
theorem leading_of_short (h : a.Short) : a.leading = a := by
  rw [leading, leadingPart_of_lt h, Decimal.signed_natAbs]

/-- **What was kept once** is kept. -/
theorem leading_leading (a : Fixed) : a.leading.leading = a.leading := by
  rw [leading, natAbs_leading, leadingPart_leadingPart, ← natAbs_leading, Decimal.signed_natAbs]

/-- The raw value of what is kept, for an amount of a known number of digits. -/
theorem raw_leading {k : Nat} (hlow : 10 ^ (119 + k) ≤ a.raw.natAbs) (hhigh : a.raw.natAbs < 10 ^ (120 + k)) :
    a.leading.raw = a.raw.tdiv (10 ^ k) * 10 ^ k := by
  have hexcess : excessDigits a.raw.natAbs = k := by
    rw [excessDigits, digitCount_eq hlow (by rwa [show 119 + k + 1 = 120 + k by omega]), Decimal.precision]
    omega
  rw [leading, leadingPart, hexcess, Decimal.signed]
  obtain ⟨n, hraw | hraw⟩ := Int.eq_nat_or_neg a.raw
  · rw [hraw, if_neg (by simp), Int.natAbs_natCast]
    push_cast
    rfl
  · rw [hraw, Int.natAbs_neg, Int.natAbs_natCast, Int.neg_tdiv, Int.neg_mul]
    split
    · push_cast
      rfl
    · next hsign =>
      -- the amount is zero
      have hn : n = 0 := by
        rw [decide_eq_true_iff] at hsign
        omega
      subst hn
      simp

/-- The shifted value of a numeral without decimals overflows or is cut to its leading part. -/
theorem ofDecimal_of_whole {d : Decimal} (hwhole : 0 ≤ d.exponent + 18) : ofDecimal d =
    if Decimal.overflows ⟨d.negative, d.coefficient, d.exponent + 18⟩ then refuse .overflow
    else .ok ⟨Decimal.signed d.negative (leadingPart (d.coefficient * 10 ^ (d.exponent + 18).toNat))⟩ := by
  obtain ⟨negative, c, e⟩ := d
  have hpos := digitCount_pos c
  unfold ofDecimal
  dsimp only at *
  by_cases hzero : c = 0
  · subst hzero
    rw [if_pos (.inl rfl), if_neg (by simp [Decimal.overflows]), Nat.zero_mul, leadingPart_zero]
    cases negative <;> rfl
  · have hadjusted : ¬ Decimal.adjusted ⟨negative, c, e + 18⟩ < 0 := by
      simp only [Decimal.adjusted]
      omega
    rw [if_neg (not_or.mpr ⟨hzero, hadjusted⟩), Decimal.toInt_cut_of_nonneg hwhole]

/-- The text of an amount is a numeral that, shifted by eighteen places, has no decimals and is the leading
part of the raw value; it is read if it is within reach. -/
theorem exists_reached_text (a : Fixed) : ∃ d : Decimal, Numeral.ofText a.text = Numeral.reached d ∧
    d.negative = decide (a.raw < 0) ∧ d.exponent ≤ 0 ∧ 0 ≤ d.exponent + 18 ∧
      d.coefficient * 10 ^ (d.exponent + 18).toNat = leadingPart a.raw.natAbs := by
  generalize hx : excessDigits a.raw.natAbs = x
  have hdecimal : a.toDecimal = ⟨decide (a.raw < 0), a.raw.natAbs / 10 ^ x, -18 + x⟩ := by
    rw [← hx]
    rfl
  refine ⟨⟨decide (a.raw < 0), a.raw.natAbs / 10 ^ x * 10 ^ (-18 + x : Int).toNat, min (-18 + x) 0⟩,
    ?_, rfl, Int.min_le_right _ _, ?_, ?_⟩
  · rw [numeral_eq, hdecimal]
  · dsimp only
    omega
  · have hplaces : (-18 + x : Int).toNat + (min (-18 + x : Int) 0 + 18).toNat = x := by omega
    rw [leadingPart, hx, Nat.mul_assoc, ← Nat.pow_add, hplaces]

/-- **Whole units stay whole.**  A text may show only the leading digits of an amount; what is read back
from it is still a multiple of every power of ten that the amount was a multiple of. -/
theorem pow_dvd_of_ofText {b : Fixed} {k : Nat} (h : ofText a.text = .ok b)
    (ha : (10 : Int) ^ k ∣ a.raw) : (10 : Int) ^ k ∣ b.raw := by
  obtain ⟨d, hread, -, -, hwhole, hleading⟩ := exists_reached_text a
  have hdvd : 10 ^ k ∣ leadingPart a.raw.natAbs :=
    pow_dvd_leadingPart (by exact_mod_cast Int.natAbs_dvd_natAbs.mpr ha)
  have hreached : ofDecimal d = .ok b := by
    rw [ofText, hread, Numeral.reached] at h
    by_cases hreach : Numeral.inReach d = true
    · rw [if_pos hreach] at h
      exact h
    · rw [if_neg hreach] at h
      cases h
  rw [ofDecimal_of_whole hwhole, hleading, leadingPart_leadingPart] at hreached
  split at hreached
  · cases hreached
  · rw [← Except.ok.inj hreached]
    exact_mod_cast Decimal.dvd_signed hdvd d.negative

section

-- a bound on the digits, which is not to be computed
variable {digits : Nat} (hdigits : digits ≤ 1000000)

include hdigits

/-- The numeral that is the text of an amount with at most a million digits is within reach, and its shifted
value does not overflow. -/
theorem exists_numeral_text (h : a.raw.natAbs < 10 ^ digits) : ∃ d : Decimal,
    Numeral.ofText a.text = .ok (.finite d) ∧ ofDecimal d = .ok a.leading := by
  obtain ⟨d, hread, hnegative, hsmall, hwhole, hleading⟩ := exists_reached_text a
  have hcount : digitCount (d.coefficient * 10 ^ (d.exponent + 18).toNat) ≤ 1000000 := by
    rw [hleading]
    exact digitCount_le_of_lt ((leadingPart_le _).trans_lt h) hdigits (by decide)
  have hadjusted : d.coefficient = 0 ∨ d.exponent + 18 + digitCount d.coefficient ≤ 1000000 := by
    by_cases hzero : d.coefficient = 0
    · exact .inl hzero
    · rw [digitCount_mul_pow hzero] at hcount
      omega
  refine ⟨d, ?_, ?_⟩
  · rw [hread, Numeral.reached, if_pos]
    refine Bool.and_eq_true_iff.mpr ⟨decide_eq_true ?_, decide_eq_true ?_⟩
    · simp only [Numeral.minExponent]
      omega
    · simp only [Decimal.adjusted, Numeral.maxAdjusted]
      rcases hadjusted with hzero | hle
      · have hone : digitCount d.coefficient = 1 := by rw [hzero]; rfl
        omega
      · omega
  · rw [ofDecimal_of_whole hwhole, if_neg, hleading, hnegative, leadingPart_leadingPart, leading]
    rw [Decimal.overflows, Bool.and_eq_true, decide_eq_true_iff, bne_iff_ne]
    rintro ⟨hne, hlt⟩
    have hle := hadjusted.resolve_left hne
    simp only [Decimal.adjusted, Decimal.maxAdjusted] at hlt
    omega

/-- **The text of an amount** is read as its leading part. -/
theorem ofText_text_eq (h : a.raw.natAbs < 10 ^ digits) : ofText a.text = .ok a.leading := by
  obtain ⟨d, hread, hdecimal⟩ := exists_numeral_text hdigits h
  rw [ofText, hread]
  exact hdecimal

/-- What comes back of an amount that is printed and then read. -/
def reread (a : Fixed) : Except Failure Fixed := do ofText (← a.written)

/-- An amount that can be written is read again as its leading digits. -/
theorem reread_eq (h : a.raw.natAbs < 10 ^ digits) : a.reread = .ok a.leading := by
  have hwritten : a.written = .ok a.text :=
    written_of_printable (printable_of_lt (hdigits.trans (by decide)) h)
  have hreread : a.reread = ofText a.text := by
    simp only [reread, hwritten, bind, Except.bind]
  rw [hreread, ofText_text_eq hdigits h]

end

/-- An amount of at most 120 digits is read back from its text. -/
theorem ofText_text (h : a.Short) : ofText a.text = .ok a := by
  rw [ofText_text_eq (by decide) h, leading_of_short h]

/-- **Printing and reading** an amount of at most 120 digits gives the amount back.  A longer one comes
back with zeros after its leading 120 digits, as far as the context can hold it at all; so its magnitude
never grows, and what came back once comes back unchanged. -/
theorem reread_keeps_leading (a : Fixed) (h : a.raw.natAbs < 10 ^ 1000000) : ∃ b, a.reread = .ok b ∧
    (a.raw.natAbs < 10 ^ 120 → b = a) ∧
    (∀ k, 10 ^ (119 + k) ≤ a.raw.natAbs → a.raw.natAbs < 10 ^ (120 + k) →
      b.raw = a.raw.tdiv (10 ^ k) * 10 ^ k) ∧
    b.raw.natAbs ≤ a.raw.natAbs ∧ b.reread = .ok b := by
  have hle : a.leading.raw.natAbs ≤ a.raw.natAbs := by
    rw [natAbs_leading]
    exact leadingPart_le _
  have hdigits := Nat.le_refl 1000000
  refine ⟨a.leading, reread_eq hdigits h, ?_, ?_, hle, ?_⟩
  · exact leading_of_short
  · exact fun k => raw_leading
  · rw [reread_eq hdigits (hle.trans_lt h), leading_leading]

/-- An amount of 122 digits, two more than the context keeps. -/
def overlong : Fixed := ⟨-(10 ^ 121 + 1987)⟩

/-- The last two digits of `overlong` come back as zeros. -/
theorem overlong_reread : overlong.raw.natAbs < 10 ^ 1000000 ∧
    overlong.reread = .ok ⟨-(10 ^ 121 + 1900)⟩ := by
  have hdigits : overlong.raw.natAbs < 10 ^ 122 := by decide
  have hsmall : overlong.raw.natAbs < 10 ^ 1000000 := lt_pow_of_lt hdigits (by decide)
  obtain ⟨b, hreread, -, hlong, -⟩ := reread_keeps_leading overlong hsmall
  have hraw := hlong 2 (by decide) hdigits
  refine ⟨hsmall, hreread.trans (congrArg Except.ok (Fixed.ext ?_))⟩
  rw [hraw]
  decide

end Fixed

end WeightedMarket
