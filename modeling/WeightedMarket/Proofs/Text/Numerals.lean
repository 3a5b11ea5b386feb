/-
  Numerals that were written are read back.

  A numeral is digits on both sides of a point, if there is one, and what ends it; the reader takes the digits
  as one number and moves the point (`Numeral.number?_pointed`).  So a number in positional notation is read
  as its value, with the decimals that were written (`Numeral.ofChars_plain`), and an integer as a numeral of
  its digits (`Numeral.ofText_toString`), as long as its power of ten is within reach.

  The text of an amount is such a number (`Fixed.numeral_eq`), and every amount of usual size has a text
  (`Fixed.printable_of_lt`).
-/
import WeightedMarket.Fixed.Checked
import WeightedMarket.Fixed.Reader
import WeightedMarket.Proofs.Text.Digits

namespace WeightedMarket

open Text

/-! ## Plain numerals -/

namespace Numeral

/-- A character that a number without an exponent is written with. -/
def IsPlain (c : Char) : Prop := c.isDigit = true ∨ c = '.' ∨ c = '-'

instance : DecidablePred IsPlain := fun _ => inferInstanceAs (Decidable (_ ∨ _))

theorem asciiDigit_of_isDigit {c : Char} (h : c.isDigit = true) : asciiDigit c = c := by
  obtain ⟨hle, hge⟩ := toNat_of_isDigit h
  simp only [asciiDigit, digit?_of_isDigit h]
  apply Char.toNat_inj.mp
  rw [Nat.toNat_digitChar_of_lt_ten (by omega)]
  omega

/-- A plain character is no blank, so it is not trimmed. -/
theorem IsPlain.isBlank {c : Char} (h : IsPlain c) : isBlank c = false := by
  rcases h with hdigit | rfl | rfl
  · exact isBlank_of_isDigit hdigit
  · rfl
  · rfl

theorem IsPlain.bne_underscore {c : Char} (h : IsPlain c) : (c != '_') = true := by
  rw [bne_iff_ne]
  rintro rfl
  exact absurd h (by decide)

/-- A plain character is not translated. -/
theorem IsPlain.asciiDigit {c : Char} (h : IsPlain c) : asciiDigit c = c := by
  rcases h with hdigit | rfl | rfl
  · exact asciiDigit_of_isDigit hdigit
  · decide
  · decide

/-- Plain characters stay as they are: none is blank, an underscore or a foreign digit. -/
theorem normalized_of_plain {cs : List Char} (h : ∀ c ∈ cs, IsPlain c) : normalized cs = cs := by
  rw [normalized, trim_eq_self (fun c hc => (h c (List.mem_of_head? hc)).isBlank)
    (fun c hc => (h c (List.mem_of_getLast? hc)).isBlank),
    List.filter_eq_self.mpr fun c hc => (h c hc).bne_underscore]
  exact (List.map_congr_left fun c hc => (h c hc).asciiDigit).trans (List.map_id cs)

/-- The text starts with a digit or a point, as every number does after its sign. -/
def Opens (cs : List Char) : Prop := ∃ c ∈ cs.head?, c.isDigit = true ∨ c = '.'

theorem opens_cons {c : Char} (h : c.isDigit = true ∨ c = '.') (r : List Char) : Opens (c :: r) :=
  ⟨c, rfl, h⟩

/-- No word starts with a digit or a point. -/
theorem unsigned_of_opens {cs : List Char} (h : Opens cs) (negative : Bool) :
    unsigned negative cs = number? negative cs := by
  obtain ⟨c, hhead, hstart⟩ := h
  obtain ⟨r, rfl⟩ := List.head?_eq_some_iff.mp hhead
  have hlower : c.toLower = c := by
    refine dif_neg fun hupper => ?_
    have hbounds : 65 ≤ c.toNat := hupper.1
    rcases hstart with hdigit | rfl
    · obtain ⟨hle, hge⟩ := toNat_of_isDigit hdigit
      omega
    · exact absurd hbounds (by decide)
  have hletter : c ≠ 'i' ∧ c ≠ 'n' ∧ c ≠ 's' := by
    refine ⟨?_, ?_, ?_⟩ <;> rintro rfl <;> exact absurd hstart (by decide)
  have hword : word? negative ((c :: r).map Char.toLower) = none := by
    rw [List.map_cons, hlower]
    unfold word?
    split
    · next heq => exact absurd (List.cons.inj heq).1 hletter.1
    · next heq => exact absurd (List.cons.inj heq).1 hletter.2.1
    · next heq => exact absurd (List.cons.inj heq).1 hletter.2.2
    · rfl
  rw [unsigned, hword]

/-- A minus sign makes the number after it negative. -/
theorem ofChars_minus {cs r : List Char} (hr : Opens r) (h : normalized cs = '-' :: r) :
    ofChars cs = number? true r := by
  rw [ofChars, h]
  exact unsigned_of_opens hr true

/-- A plus sign changes nothing about the number after it. -/
theorem ofChars_plus {cs r : List Char} (hr : Opens r) (h : normalized cs = '+' :: r) :
    ofChars cs = number? false r := by
  rw [ofChars, h]
  exact unsigned_of_opens hr false

/-- A text that opens with a number is read as it. -/
theorem ofChars_unsigned {cs r : List Char} (hr : Opens r) (h : normalized cs = r) :
    ofChars cs = number? false r := by
  rw [ofChars, h]
  obtain ⟨c, hhead, hstart⟩ := id hr
  split
  · next heq => cases hhead; exact absurd hstart (by decide)
  · next heq => cases hhead; exact absurd hstart (by decide)
  · exact unsigned_of_opens hr false

/-- The sign in front of a number that starts with a digit is read first. -/
theorem ofChars_signed {whole rest : List Char} (hwhole : ∀ c ∈ whole, c.isDigit = true)
    (hne : whole ≠ []) (hrest : ∀ c ∈ rest, IsPlain c) (negative : Bool) :
    ofChars ((if negative then ['-'] else []) ++ (whole ++ rest)) = number? negative (whole ++ rest) := by
  obtain ⟨c, r, rfl⟩ := List.exists_cons_of_ne_nil hne
  rw [List.forall_mem_cons] at hwhole
  have hopens : Opens (c :: (r ++ rest)) := opens_cons (.inl hwhole.1) _
  have hplain : ∀ d ∈ c :: (r ++ rest), IsPlain d := by
    refine List.forall_mem_cons.mpr ⟨.inl hwhole.1, fun d hd => ?_⟩
    exact (List.mem_append.mp hd).elim (fun hd => .inl (hwhole.2 d hd)) (hrest d)
  rw [List.cons_append]
  cases negative with
  | true =>
    have hminus : ∀ d ∈ '-' :: c :: (r ++ rest), IsPlain d :=
      List.forall_mem_cons.mpr ⟨.inr (.inr rfl), hplain⟩
    exact ofChars_minus hopens (normalized_of_plain hminus)
  | false => exact ofChars_unsigned hopens (normalized_of_plain hplain)

/-- The value of a numeral, if it is within reach. -/
def reached (d : Decimal) : Except NumeralFault Numeral :=
  if inReach d then .ok (.finite d) else .error .exponent

/-- The power of ten that the characters after the digits stand for, if they end a numeral. -/
def ending? : List Char → Option Int
  | [] => some 0
  | c :: r => if c = 'e' ∨ c = 'E' then exponent? r else none

/-- A point and the digits after it, if there is a point. -/
def pointed : Option (List Char) → List Char
  | none => []
  | some ds => '.' :: ds

/-- A fraction is known from its characters: one without digits still has its point. -/
theorem pointed_inj {f g : Option (List Char)} (h : pointed f = pointed g) : f = g := by
  cases f with
  | none => cases g with
    | none => rfl
    | some es => cases h
  | some ds => cases g with
    | none => cases h
    | some es => exact congrArg some (List.cons.inj h).2

/-- Neither a digit nor a point ends a numeral. -/
theorem ending?_starts {rest : List Char} {e : Int} (h : ending? rest = some e) :
    NoDigit rest ∧ ∀ r, rest ≠ '.' :: r := by
  cases rest with
  | nil => exact ⟨noDigit_nil, nofun⟩
  | cons c r =>
    rw [ending?] at h
    split at h
    · next hletter =>
      rcases hletter with rfl | rfl
      · exact ⟨noDigit_cons (by decide) r, by simp⟩
      · exact ⟨noDigit_cons (by decide) r, by simp⟩
    · cases h

/-- The digits after a point, if the text starts with one, and the rest. -/
def takeFraction (cs : List Char) : List Char × List Char :=
  match cs with
  | '.' :: r => (r.takeWhile Char.isDigit, r.dropWhile Char.isDigit)
  | r => ([], r)

/-- A number is its digits in front of a point, those after it, and what ends it. -/
theorem number?_eq (negative : Bool) (cs : List Char) : number? negative cs =
    let whole := cs.takeWhile Char.isDigit
    let (fraction, rest) := takeFraction (cs.dropWhile Char.isDigit)
    if (whole ++ fraction).isEmpty then .error .form
    else match ending? rest with
      | none => .error .form
      | some e => reached ⟨negative, valueOf (whole ++ fraction), e - fraction.length⟩ :=
  rfl

/-- A fraction is taken up to what is no digit. -/
theorem takeFraction_pointed {fraction : Option (List Char)} {rest : List Char}
    (hfraction : ∀ c ∈ fraction.getD [], c.isDigit = true) (hdigit : NoDigit rest)
    (hpoint : ∀ r, rest ≠ '.' :: r) :
    takeFraction (pointed fraction ++ rest) = (fraction.getD [], rest) := by
  cases fraction with
  | none =>
    rw [pointed, List.nil_append, takeFraction.eq_def]
    split
    · exact absurd rfl (hpoint _)
    · rfl
  | some ds =>
    rw [Option.getD_some] at hfraction ⊢
    rw [pointed, List.cons_append, takeFraction, takeWhile_isDigit hfraction hdigit,
      dropWhile_isDigit hfraction hdigit]

/-- **Digits** on both sides of a point, if there is one, are read as one number; the point is moved by the
power of ten that ends the numeral. -/
theorem number?_pointed (fraction : Option (List Char)) (rest : List Char) {whole : List Char} {e : Int}
    (hwhole : ∀ c ∈ whole, c.isDigit = true) (hfraction : ∀ c ∈ fraction.getD [], c.isDigit = true)
    (hne : whole ++ fraction.getD [] ≠ []) (hending : ending? rest = some e) (negative : Bool) :
    number? negative (whole ++ (pointed fraction ++ rest)) =
      reached ⟨negative, valueOf (whole ++ fraction.getD []), e - (fraction.getD []).length⟩ := by
  obtain ⟨hdigit, hpoint⟩ := ending?_starts hending
  have hempty := List.isEmpty_eq_false_iff.mpr hne
  have hstop : NoDigit (pointed fraction ++ rest) := by
    cases fraction with
    | none => exact hdigit
    | some ds => exact noDigit_cons (by decide) _
  simp only [number?_eq, takeWhile_isDigit hwhole hstop, dropWhile_isDigit hwhole hstop,
    takeFraction_pointed hfraction hdigit hpoint, hempty, hending, Bool.false_eq_true, if_false]

section

variable {whole fraction : List Char} (hwhole : ∀ c ∈ whole, c.isDigit = true) (hne : whole ≠ [])

include hwhole hne

/-- Digits alone are read as a whole number. -/
theorem number?_whole (negative : Bool) :
    number? negative whole = reached ⟨negative, valueOf whole, 0⟩ := by
  have hread := number?_pointed none [] hwhole nofun (by simpa using hne) rfl negative
  simpa [pointed] using hread

/-- Digits with a point among them are read as a number with as many decimals as follow the point. -/
theorem number?_point (hfraction : ∀ c ∈ fraction, c.isDigit = true) (negative : Bool) :
    number? negative (whole ++ '.' :: fraction) =
      reached ⟨negative, valueOf (whole ++ fraction), -fraction.length⟩ := by
  have hread := number?_pointed (some fraction) [] hwhole hfraction (by simp [hne]) rfl negative
  simpa [pointed] using hread

end

/-- **A number in positional notation** is read as its value, with the decimals that were written. -/
theorem ofChars_plain (d : Decimal) : ofChars d.plain =
    reached ⟨d.negative, d.coefficient * 10 ^ d.exponent.toNat, min d.exponent 0⟩ := by
  rw [Decimal.plain, Decimal.sign, Decimal.plainMagnitude]
  by_cases hwhole : 0 ≤ d.exponent
  · -- there are zeros up to the units
    rw [if_pos hwhole]
    have hne : digitsOf d.coefficient ++ List.replicate d.exponent.toNat '0' ≠ [] := by
      simp [digitsOf_ne_nil]
    have hdigits := isDigit_of_mem_zeros d.coefficient d.exponent.toNat
    have hsigned := ofChars_signed hdigits hne (List.forall_mem_nil IsPlain) d.negative
    rw [List.append_nil] at hsigned
    rw [hsigned, number?_whole hdigits hne, valueOf, Nat.ofDigitChars_append, ofDigitChars_digitsOf,
      Nat.ofDigitChars_replicate_zero, Nat.mul_comm, Int.min_eq_right hwhole]
  · -- there are as many decimals as the exponent asks for
    rw [if_neg hwhole]
    generalize hplaces : (-d.exponent).toNat = k
    have hpos : 0 < k := by omega
    have hdigits : ∀ c ∈ digitsOf (d.coefficient / 10 ^ k), c.isDigit = true := fun c hc =>
      isDigit_of_mem_digitsOf hc
    have hfraction : ∀ c ∈ Decimal.padded k (d.coefficient % 10 ^ k), c.isDigit = true := fun c hc =>
      Decimal.isDigit_of_mem_padded hc
    have hlength : (Decimal.padded k (d.coefficient % 10 ^ k)).length = k :=
      Decimal.length_padded hpos (Nat.mod_lt _ (Nat.pow_pos (by decide)))
    have hvalue : valueOf (digitsOf (d.coefficient / 10 ^ k) ++
        Decimal.padded k (d.coefficient % 10 ^ k)) = d.coefficient := by
      rw [valueOf, Nat.ofDigitChars_append, ofDigitChars_digitsOf,
        Nat.ofDigitChars_eq_ofDigitChars_zero, Decimal.ofDigitChars_padded, hlength]
      exact Nat.div_add_mod _ _
    have hplain : ∀ c ∈ '.' :: Decimal.padded k (d.coefficient % 10 ^ k), IsPlain c :=
      List.forall_mem_cons.mpr ⟨.inr (.inl rfl), fun c hc => .inl (hfraction c hc)⟩
    have hsigned := ofChars_signed hdigits (digitsOf_ne_nil _) hplain d.negative
    rw [number?_point hdigits (digitsOf_ne_nil _) hfraction, hvalue, hlength] at hsigned
    have hexponent : min d.exponent 0 = -(k : Int) := by omega
    have hunits : d.exponent.toNat = 0 := by omega
    rw [hexponent, hunits, Nat.pow_zero, Nat.mul_one]
    exact hsigned

/-- **An integer** is read as a numeral of its digits. -/
theorem ofText_toString (n : Int) :
    ofText (toString n) = reached ⟨decide (n < 0), n.natAbs, 0⟩ := by
  have hplain := ofChars_plain ⟨decide (n < 0), n.natAbs, 0⟩
  simp only [Decimal.plain, Decimal.sign, Decimal.plainMagnitude, decide_eq_true_eq, Int.le_refl, if_true,
    Int.toNat_zero, List.replicate_zero, List.append_nil, Nat.pow_zero, Nat.mul_one, Int.min_self] at hplain
  rw [ofText, toList_toString_int]
  exact hplain

end Numeral

/-! ## Amounts -/

namespace Fixed

variable {a : Fixed}

/-- The digits that the context keeps. -/
def Short (a : Fixed) : Prop := a.raw.natAbs < 10 ^ Decimal.precision

instance (a : Fixed) : Decidable a.Short := inferInstanceAs (Decidable (_ < _))

/-- A coefficient of at most 120 digits is not cut. -/
theorem cut_eq_self {d : Decimal} (h : digitCount d.coefficient ≤ 120) : d.cut = d := by
  have hexcess : digitCount d.coefficient - Decimal.precision = 0 := Nat.sub_eq_zero_of_le h
  rw [Decimal.cut, hexcess]
  simp

/-- The text of an amount is a numeral of its leading digits. -/
theorem numeral_eq (a : Fixed) : Numeral.ofText a.text = Numeral.reached
    ⟨a.toDecimal.negative, a.toDecimal.coefficient * 10 ^ a.toDecimal.exponent.toNat,
      min a.toDecimal.exponent 0⟩ := by
  rw [Numeral.ofText, text, String.toList_ofList, chars, Numeral.ofChars_plain]

/-- An amount with few enough digits can be printed. -/
theorem printable_of_lt {k : Nat} (hk : k ≤ maxDigits) (h : a.raw.natAbs < 10 ^ k) :
    a.printable = true := by
  rw [printable, Bool.or_eq_true, decide_eq_true_iff, decide_eq_true_iff]
  right
  -- the bound is not to be computed
  generalize maxDigits = digits at hk ⊢
  exact Nat.lt_of_lt_of_le h (Nat.pow_le_pow_right (by decide) hk)

theorem written_of_printable (h : a.printable = true) : a.written = .ok a.text := if_pos h

/-- An amount is written as its text, if it is written at all. -/
theorem text_of_written {t : String} (h : a.written = .ok t) : t = a.text := by
  unfold written at h
  split at h
  · exact (Except.ok.inj h).symm
  · cases h

/-- An amount of at most 120 digits has a text. -/
theorem written_eq_ok (h : a.Short) : a.written = .ok a.text :=
  written_of_printable (printable_of_lt (by decide) h)

end Fixed

end WeightedMarket
