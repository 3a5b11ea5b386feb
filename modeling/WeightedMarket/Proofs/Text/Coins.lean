/-
  Coins in text.

  The text of a coin is an amount and a denomination, with blanks around them and between them.  `Coin.Form`
  is such a text with its division into parts.  The border between amount and denomination is not marked, and
  the points, signs and letters of a denomination occur in numbers, too; but a denomination starts with a
  letter, and an amount has no letters, so a text can be divided in one way only (`Form.ext_of_chars`).

  The reader finds that division if there is one (`split?_chars`) and refuses every other text
  (`ofText_of_not_form`).
-/
import WeightedMarket.Coin.Reader
import WeightedMarket.Proofs.Text.Denotation

namespace WeightedMarket.Coin

open Text

/-! ## Amounts -/

/-- An amount as a coin shows it: digits of ASCII, further ones after a point if there is a point, and a
minus sign if it is negative. -/
@[ext]
structure Amount where
  negative : Bool
  whole : List Char
  /-- The digits after the point, if there is a point. -/
  fraction : Option (List Char)
  isDigit_whole : ∀ c ∈ whole, c.isDigit = true
  isDigit_fraction : ∀ c ∈ fraction.getD [], c.isDigit = true
  whole_ne_nil : whole ≠ []
  fraction_ne_nil : fraction ≠ some []

namespace Amount

def sign (a : Amount) : List Char := if a.negative then ['-'] else []

def magnitude (a : Amount) : List Char := a.whole ++ Numeral.pointed a.fraction

def chars (a : Amount) : List Char := a.sign ++ a.magnitude

/-- The characters of an amount are plain. -/
theorem isPlain_of_mem_chars (a : Amount) : ∀ c ∈ a.chars, Numeral.IsPlain c := by
  simp only [chars, sign, magnitude, List.forall_mem_append]
  refine ⟨?_, fun c hc => .inl (a.isDigit_whole c hc), ?_⟩
  · cases a.negative with
    | true => exact List.forall_mem_singleton.mpr (.inr (.inr rfl))
    | false => nofun
  · have hdigits := a.isDigit_fraction
    cases hfraction : a.fraction with
    | none => nofun
    | some ds =>
      rw [hfraction] at hdigits
      exact List.forall_mem_cons.mpr ⟨.inr (.inl rfl), fun c hc => .inl (hdigits c hc)⟩

theorem chars_ne_nil (a : Amount) : a.chars ≠ [] := by
  simp [chars, magnitude, a.whole_ne_nil]

/-- An amount is spelled as a numeral without a power of ten. -/
def spelling (a : Amount) : Numeral.Spelling where
  sign := if a.negative then .minus else .absent
  whole := a.whole
  fraction := a.fraction
  power := none
  isDecimal_whole := fun c hc => isDecimal_of_isDigit (a.isDigit_whole c hc)
  isDecimal_fraction := fun c hc => isDecimal_of_isDigit (a.isDigit_fraction c hc)
  ne_nil := by simp [a.whole_ne_nil]

/-- The number that the amount shows. -/
def value (a : Amount) : ℚ := a.spelling.value

def text (a : Amount) : String := String.ofList a.chars

end Amount

/-! ## Denominations -/

/-- A denomination: a letter, and at most 127 letters, digits and signs after it. -/
@[ext]
structure Denomination where
  first : Char
  others : List Char
  isAlpha : first.isAlpha = true
  isDenomChar : ∀ c ∈ others, c.isAlphanum = true ∨ c ∈ ['/', ':', '.', '_', '-']
  length_le : others.length ≤ 127

namespace Denomination

def chars (d : Denomination) : List Char := d.first :: d.others

def text (d : Denomination) : String := String.ofList d.chars

end Denomination

/-! ## Coins -/

/-- The parts of a coin's text. -/
@[ext]
structure Form where
  lead : List Char
  amount : Amount
  gap : List Char
  denom : Denomination
  trail : List Char
  isBlank_lead : ∀ c ∈ lead, isBlank c = true
  isBlank_gap : ∀ c ∈ gap, isBlank c = true
  isBlank_trail : ∀ c ∈ trail, isBlank c = true

namespace Form

def chars (f : Form) : List Char :=
  f.lead ++ (f.amount.chars ++ (f.gap ++ (f.denom.chars ++ f.trail)))

def text (f : Form) : String := String.ofList f.chars

end Form

/-! ## Characters of the parts -/

theorem code_of_isAlpha {c : Char} (h : c.isAlpha = true) :
    (65 ≤ c.toNat ∧ c.toNat ≤ 90) ∨ (97 ≤ c.toNat ∧ c.toNat ≤ 122) := by
  rcases Bool.or_eq_true_iff.mp h with hupper | hlower
  · exact .inl (of_decide_eq_true hupper)
  · obtain ⟨hle, hge⟩ := Bool.and_eq_true_iff.mp hlower
    exact .inr ⟨of_decide_eq_true hle, of_decide_eq_true hge⟩

theorem isBlank_of_isAlpha {c : Char} (h : c.isAlpha = true) : isBlank c = false := by
  have hcode := code_of_isAlpha h
  simp only [isBlank, Bool.or_eq_false_iff, Bool.and_eq_false_iff, decide_eq_false_iff_not,
    beq_eq_false_iff_ne]
  omega

/-- No number goes on with a letter. -/
theorem endsNumber_of_isAlpha {c : Char} (h : c.isAlpha = true) : c.isDigit = false ∧ c ≠ '.' := by
  have hcode := code_of_isAlpha h
  constructor
  · rw [← Bool.not_eq_true]
    intro hdigit
    have := toNat_of_isDigit hdigit
    omega
  · rintro rfl
    exact absurd hcode (by decide)

/-- No number goes on with a blank. -/
theorem endsNumber_of_isBlank {c : Char} (h : isBlank c = true) : c.isDigit = false ∧ c ≠ '.' := by
  constructor
  · rw [← Bool.not_eq_true]
    intro hdigit
    rw [isBlank_of_isDigit hdigit] at h
    cases h
  · rintro rfl
    cases h

theorem isDenomChar_iff {c : Char} :
    isDenomChar c = true ↔ c.isAlphanum = true ∨ c ∈ ['/', ':', '.', '_', '-'] := by
  simp [isDenomChar, or_assoc]

/-- No character of a denomination is blank. -/
theorem isBlank_of_isDenomChar {c : Char} (h : isDenomChar c = true) : isBlank c = false := by
  rcases isDenomChar_iff.mp h with halphanum | hsign
  · rw [Char.isAlphanum, Bool.or_eq_true] at halphanum
    exact halphanum.elim isBlank_of_isAlpha isBlank_of_isDigit
  · have hsigns : ['/', ':', '.', '_', '-'].all (!isBlank ·) = true := by decide
    rw [← Bool.not_eq_true']
    exact List.all_eq_true.mp hsigns c hsign

namespace Denomination

variable (d : Denomination)

/-- A denomination passes the test for denominations. -/
theorem isDenom_chars : isDenom d.chars = true := by
  rw [chars, isDenom, Bool.and_eq_true, Bool.and_eq_true, decide_eq_true_iff, List.all_eq_true]
  exact ⟨⟨d.isAlpha, fun c hc => isDenomChar_iff.mpr (d.isDenomChar c hc)⟩, d.length_le⟩

theorem isBlank_of_mem_chars : ∀ c ∈ d.chars, isBlank c = false :=
  List.forall_mem_cons.mpr ⟨isBlank_of_isAlpha d.isAlpha, fun c hc =>
    isBlank_of_isDenomChar (isDenomChar_iff.mpr (d.isDenomChar c hc))⟩

end Denomination

/-- Characters that form a denomination are one. -/
theorem exists_denomination {cs : List Char} (h : isDenom cs = true) : ∃ d : Denomination, d.chars = cs := by
  cases cs with
  | nil => cases h
  | cons c r =>
    rw [isDenom, Bool.and_eq_true, Bool.and_eq_true, decide_eq_true_iff, List.all_eq_true] at h
    obtain ⟨⟨halpha, hothers⟩, hlength⟩ := h
    exact ⟨⟨c, r, halpha, fun d hd => isDenomChar_iff.mp (hothers d hd), hlength⟩, rfl⟩

/-! ## Amounts in front of a text -/

/-- The text does not go on with a character of a number. -/
def EndsNumber (rest : List Char) : Prop := ∀ c ∈ rest.head?, c.isDigit = false ∧ c ≠ '.'

theorem fraction_of_endsNumber {rest : List Char} (h : EndsNumber rest) : fraction rest = ([], rest) := by
  unfold fraction
  split
  · exact absurd rfl (h '.' rfl).2
  · rfl

/-- The point is taken with the digits after it. -/
theorem fraction_pointed {f : Option (List Char)} {rest : List Char}
    (hdigits : ∀ c ∈ f.getD [], c.isDigit = true) (hne : f ≠ some []) (h : EndsNumber rest) :
    fraction (Numeral.pointed f ++ rest) = (Numeral.pointed f, rest) := by
  cases f with
  | none => exact fraction_of_endsNumber h
  | some ds =>
    rw [Option.getD_some] at hdigits
    have hrest : NoDigit rest := fun c hc => (h c hc).1
    have hempty : ds.isEmpty = false := by
      rw [List.isEmpty_eq_false_iff]
      rintro rfl
      exact hne rfl
    rw [Numeral.pointed, List.cons_append, fraction, takeWhile_isDigit hdigits hrest,
      dropWhile_isDigit hdigits hrest]
    simp [hempty]

/-- What is taken of a text is a point and digits, or nothing. -/
theorem exists_fraction (cs : List Char) : ∃ f : Option (List Char),
    (∀ c ∈ f.getD [], c.isDigit = true) ∧ f ≠ some [] ∧ (fraction cs).1 = Numeral.pointed f ∧
      cs = Numeral.pointed f ++ (fraction cs).2 := by
  unfold fraction
  split
  · next r =>
    dsimp only
    split
    · exact ⟨none, nofun, nofun, rfl, rfl⟩
    · next hempty =>
      refine ⟨some (r.takeWhile Char.isDigit), fun c hc => List.mem_takeWhile_imp hc, ?_, rfl, ?_⟩
      · simpa using hempty
      · simp [Numeral.pointed]
  · exact ⟨none, nofun, nofun, rfl, rfl⟩

/-- A point, or whatever follows the number, ends its digits. -/
theorem noDigit_pointed (f : Option (List Char)) {rest : List Char} (h : EndsNumber rest) :
    NoDigit (Numeral.pointed f ++ rest) := by
  cases f with
  | none => exact fun c hc => (h c hc).1
  | some ds => exact noDigit_cons (by decide) _

/-- The amount in front of a text is found if no digit follows it. -/
theorem magnitude?_append (a : Amount) {rest : List Char} (h : EndsNumber rest) :
    magnitude? (a.magnitude ++ rest) = some (a.magnitude, rest) := by
  have hstop := noDigit_pointed a.fraction h
  have hempty : a.whole.isEmpty = false := List.isEmpty_eq_false_iff.mpr a.whole_ne_nil
  rw [Amount.magnitude, List.append_assoc, magnitude?, takeWhile_isDigit a.isDigit_whole hstop,
    dropWhile_isDigit a.isDigit_whole hstop, fraction_pointed a.isDigit_fraction a.fraction_ne_nil h]
  simp [hempty]

/-- What is found in front of a text as digits is an amount. -/
theorem exists_amount {cs m rest : List Char} (h : magnitude? cs = some (m, rest)) (negative : Bool) :
    ∃ a : Amount, a.negative = negative ∧ a.magnitude = m ∧ cs = m ++ rest := by
  rw [magnitude?] at h
  dsimp only at h
  split at h
  · cases h
  · next hempty =>
    obtain ⟨f, hdigits, hne, htaken, hrest⟩ := exists_fraction (cs.dropWhile Char.isDigit)
    cases h
    refine ⟨⟨negative, cs.takeWhile Char.isDigit, f, fun c hc => List.mem_takeWhile_imp hc, hdigits, ?_,
      hne⟩, rfl, ?_, ?_⟩
    · simpa using hempty
    · rw [Amount.magnitude, htaken]
    · rw [List.append_assoc, htaken, ← hrest, List.takeWhile_append_dropWhile]

/-! ## Division into parts -/

/-- Blanks and a letter end an amount. -/
theorem endsNumber_append {gap : List Char} (hgap : ∀ c ∈ gap, isBlank c = true) (d : Denomination)
    (trail : List Char) : EndsNumber (gap ++ (d.chars ++ trail)) := by
  intro c hc
  cases gap with
  | nil =>
    obtain rfl : d.first = c := Option.some.inj hc
    exact endsNumber_of_isAlpha d.isAlpha
  | cons b gap =>
    obtain rfl : b = c := Option.some.inj hc
    exact endsNumber_of_isBlank (hgap b List.mem_cons_self)

/-- The minus sign, if there is one, and the rest. -/
def takeSign (cs : List Char) : List Char × List Char :=
  match cs with
  | '-' :: r => (['-'], r)
  | r => ([], r)

/-- The reader takes the sign, the magnitude and the blanks off a text, and leaves the denomination. -/
theorem split?_eq (cs : List Char) : split? cs =
    (magnitude? (takeSign (trim isBlank cs)).2).bind fun (magnitude, rest) =>
      if isDenom (rest.dropWhile isBlank) then
        some ((takeSign (trim isBlank cs)).1 ++ magnitude, rest.dropWhile isBlank)
      else none :=
  rfl

/-- No digit is taken for a sign. -/
theorem takeSign_chars (a : Amount) (rest : List Char) :
    takeSign (a.chars ++ rest) = (a.sign, a.magnitude ++ rest) := by
  rw [Amount.chars, Amount.sign, List.append_assoc]
  cases a.negative with
  | true => rfl
  | false =>
    obtain ⟨c, r, hwhole⟩ := List.exists_cons_of_ne_nil a.whole_ne_nil
    have hdigit := a.isDigit_whole c (hwhole ▸ List.mem_cons_self)
    rw [if_neg (by decide), List.nil_append, Amount.magnitude, hwhole, takeSign.eq_def]
    split
    · next heq =>
      obtain rfl : c = '-' := (List.cons.inj heq).1
      cases hdigit
    · rfl

/-- A sign is taken if there is one, and nothing is lost. -/
theorem exists_sign (cs : List Char) : ∃ negative : Bool,
    (takeSign cs).1 = (if negative then ['-'] else []) ∧ cs = (takeSign cs).1 ++ (takeSign cs).2 := by
  unfold takeSign
  split
  · exact ⟨true, rfl, rfl⟩
  · exact ⟨false, rfl, rfl⟩

/-- The reader finds the parts of a coin's text. -/
theorem split?_chars (f : Form) : split? f.chars = some (f.amount.chars, f.denom.chars) := by
  have hbody : f.chars = f.lead ++ (f.amount.chars ++ (f.gap ++ f.denom.chars)) ++ f.trail := by
    simp only [Form.chars, List.append_assoc]
  have hfront : Stops isBlank (f.amount.chars ++ (f.gap ++ f.denom.chars)) :=
    stops_run (fun c hc => (f.amount.isPlain_of_mem_chars c hc).isBlank) f.amount.chars_ne_nil
  have hback : Stops isBlank (f.amount.chars ++ (f.gap ++ f.denom.chars)).reverse := by
    rw [← List.append_assoc, List.reverse_append]
    exact stops_run (fun c hc => f.denom.isBlank_of_mem_chars c (List.mem_reverse.mp hc))
      (by simp [Denomination.chars])
  have htrim : trim isBlank f.chars = f.amount.chars ++ (f.gap ++ f.denom.chars) := by
    rw [hbody]
    exact trim_append f.isBlank_lead hfront hback f.isBlank_trail
  have hends : EndsNumber (f.gap ++ f.denom.chars) := by
    have happend := endsNumber_append f.isBlank_gap f.denom []
    rwa [List.append_nil] at happend
  have hgap : (f.gap ++ f.denom.chars).dropWhile isBlank = f.denom.chars :=
    dropWhile_of_stops f.isBlank_gap (stops_of_forall f.denom.isBlank_of_mem_chars)
  rw [split?_eq, htrim, takeSign_chars, magnitude?_append f.amount hends]
  show (if isDenom (List.dropWhile isBlank (f.gap ++ f.denom.chars)) = true then _ else _) = _
  rw [hgap, if_pos f.denom.isDenom_chars]
  rfl

/-- The reader divides only texts that have the form of a coin. -/
theorem exists_form {cs a d : List Char} (h : split? cs = some (a, d)) :
    ∃ f : Form, f.chars = cs ∧ f.amount.chars = a ∧ f.denom.chars = d := by
  obtain ⟨lead, trail, hlead, htrail, hcs⟩ := exists_trim isBlank cs
  obtain ⟨negative, hsign, hsigned⟩ := exists_sign (trim isBlank cs)
  rw [split?_eq] at h
  obtain ⟨⟨m, rest⟩, hmagnitude, hrest⟩ := Option.bind_eq_some_iff.mp h
  obtain ⟨amount, hnegative, hm, happend⟩ := exists_amount hmagnitude negative
  dsimp only at hrest
  split at hrest
  · next hdenom =>
    obtain ⟨denom, hd⟩ := exists_denomination hdenom
    obtain ⟨rfl, rfl⟩ := Prod.mk.inj (Option.some.inj hrest)
    have hamount : amount.chars = (takeSign (trim isBlank cs)).1 ++ m := by
      rw [Amount.chars, Amount.sign, hnegative, hm, hsign]
    refine ⟨⟨lead, amount, rest.takeWhile isBlank, denom, trail, hlead,
      fun c hc => List.mem_takeWhile_imp hc, htrail⟩, ?_, hamount, hd⟩
    calc lead ++ (amount.chars ++ (rest.takeWhile isBlank ++ (denom.chars ++ trail)))
        = lead ++ (amount.chars ++ (rest.takeWhile isBlank ++ rest.dropWhile isBlank)) ++ trail := by
          simp only [hd, List.append_assoc]
      _ = lead ++ ((takeSign (trim isBlank cs)).1 ++ (takeSign (trim isBlank cs)).2) ++ trail := by
          rw [List.takeWhile_append_dropWhile, hamount, happend, List.append_assoc _ m]
      _ = cs := by rw [← hsigned, ← hcs]
  · cases hrest

/-- An amount is known from its sign and its digits. -/
theorem Amount.ext_of_magnitude {a b : Amount} (hsign : a.sign = b.sign)
    (hmagnitude : a.magnitude = b.magnitude) : a = b := by
  have hnegative : a.negative = b.negative := by
    cases ha : a.negative <;> cases hb : b.negative <;> simp_all [sign]
  have hends : EndsNumber [] := nofun
  have ha := noDigit_pointed a.fraction hends
  have hb := noDigit_pointed b.fraction hends
  rw [List.append_nil] at ha hb
  obtain ⟨hwhole, hfraction⟩ := run_unique hmagnitude a.isDigit_whole ha b.isDigit_whole hb
  exact Amount.ext hnegative hwhole (Numeral.pointed_inj hfraction)

/-- **A text is divided in one way.** -/
theorem Form.ext_of_chars {f g : Form} (h : f.chars = g.chars) : f = g := by
  have hamount (k : Form) : Stops isBlank (k.amount.chars ++ (k.gap ++ (k.denom.chars ++ k.trail))) :=
    stops_run (fun c hc => (k.amount.isPlain_of_mem_chars c hc).isBlank) k.amount.chars_ne_nil
  have hdenom (k : Form) : Stops isBlank (k.denom.chars ++ k.trail) :=
    stops_run k.denom.isBlank_of_mem_chars (by simp [Denomination.chars])
  obtain ⟨hlead, hafter⟩ := run_unique h f.isBlank_lead (hamount f) g.isBlank_lead (hamount g)
  -- the amount ends where the reader stops taking it
  have hsigned := congrArg takeSign hafter
  rw [takeSign_chars, takeSign_chars] at hsigned
  obtain ⟨hsign, hmagnitude⟩ := Prod.mk.inj hsigned
  have htaken := congrArg magnitude? hmagnitude
  rw [magnitude?_append f.amount (endsNumber_append f.isBlank_gap f.denom f.trail),
    magnitude?_append g.amount (endsNumber_append g.isBlank_gap g.denom g.trail)] at htaken
  obtain ⟨hmagnitude, hrest⟩ := Prod.mk.inj (Option.some.inj htaken)
  obtain ⟨hgap, hlast⟩ := run_unique hrest f.isBlank_gap (hdenom f) g.isBlank_gap (hdenom g)
  have hletters (k : Form) : ∀ c ∈ k.denom.chars, (!isBlank c) = true := fun c hc => by
    rw [k.denom.isBlank_of_mem_chars c hc]
    rfl
  have htrail (k : Form) : Stops (!isBlank ·) k.trail := stops_of_forall fun c hc => by
    rw [k.isBlank_trail c hc]
    rfl
  obtain ⟨hchars, htrail⟩ := run_unique hlast (hletters f) (htrail f) (hletters g) (htrail g)
  obtain ⟨hfirst, hothers⟩ := List.cons.inj hchars
  exact Form.ext hlead (Amount.ext_of_magnitude hsign hmagnitude) hgap (Denomination.ext hfirst hothers) htrail

/-! ## Reading a coin -/

theorem Form.toList_text (f : Form) : f.text.toList = f.chars := String.toList_ofList

/-- A form is known from its text. -/
theorem Form.ext_of_text {f g : Form} (h : f.text = g.text) : f = g := by
  have hchars := congrArg String.toList h
  rw [f.toList_text, g.toList_text] at hchars
  exact Form.ext_of_chars hchars

/-- A coin's text is read as its amount and its denomination. -/
theorem ofText_text (f : Form) : ofText f.text =
    (Fixed.ofText f.amount.text).map fun a => ⟨f.denom.text, a⟩ := by
  rw [ofText, f.toList_text, split?_chars]
  rfl

/-- Every other text is refused. -/
theorem ofText_of_not_form {s : String} (h : ∀ f : Form, f.text ≠ s) : ofText s = refuse (.badCoin s) := by
  rw [ofText]
  split
  · rfl
  · next a d hsplit =>
    obtain ⟨f, hchars, -, -⟩ := exists_form hsplit
    have htext : f.text = s := by rw [Form.text, hchars, String.ofList_toList]
    exact absurd htext (h f)

/-- The text of an amount denotes its value. -/
theorem Amount.denotes (a : Amount) : Numeral.Denotes a.text a.value := by
  have hspelled : a.spelling.chars = a.chars := by
    have hsign : a.spelling.sign.chars = a.sign := by
      rw [sign, spelling]
      cases a.negative <;> rfl
    rw [Numeral.Spelling.chars, hsign]
    show a.sign ++ (a.whole ++ (Numeral.pointed a.fraction ++ [])) = _
    rw [List.append_nil]
    rfl
  have hfilter : a.chars.filter (· != '_') = a.spelling.chars := by
    rw [hspelled]
    exact List.filter_eq_self.mpr fun c hc => (a.isPlain_of_mem_chars c hc).bne_underscore
  have htext : a.text.toList = [] ++ a.chars ++ [] := by
    rw [text, String.toList_ofList, List.nil_append, List.append_nil]
  have hspells : a.spelling.Spells a.text :=
    ⟨[], a.chars, [], htext, List.forall_mem_nil _, List.forall_mem_nil _, hfilter⟩
  exact ⟨a.spelling, hspells, Nat.zero_le _, rfl⟩

/-- The plain layout of a decimal value is an amount. -/
theorem exists_amount_plain (d : Decimal) : ∃ a : Amount, a.chars = d.plain := by
  rw [Decimal.plain, Decimal.plainMagnitude]
  split
  · refine ⟨⟨d.negative, _, none, isDigit_of_mem_zeros d.coefficient d.exponent.toNat,
      List.forall_mem_nil _, by simp [digitsOf_ne_nil], (Option.some_ne_none _).symm⟩, ?_⟩
    exact congrArg (d.sign ++ ·) (List.append_nil _)
  · refine ⟨⟨d.negative, _, some _, fun c hc => isDigit_of_mem_digitsOf hc,
      fun c hc => Decimal.isDigit_of_mem_padded hc, digitsOf_ne_nil _, ?_⟩, rfl⟩
    simp [digitsOf_ne_nil]

/-- The text of a coin has the form of one. -/
theorem exists_form_text (d : Denomination) (a : Fixed) :
    ∃ f : Form, f.text = text ⟨d.text, a⟩ ∧ f.amount.text = a.text ∧ f.denom = d := by
  obtain ⟨m, hm⟩ := exists_amount_plain a.toDecimal
  refine ⟨⟨[], m, [], d, [], nofun, nofun, nofun⟩, ?_, congrArg String.ofList hm, rfl⟩
  rw [Form.text, Form.chars, text, Denomination.text, Fixed.text, Fixed.chars, ← hm, ← String.ofList_append]
  simp

/-- A coin whose amount has at most 120 digits is read back from its text. -/
theorem ofText_text_of_short (d : Denomination) {a : Fixed} (h : a.Short) :
    ofText (text ⟨d.text, a⟩) = .ok ⟨d.text, a⟩ := by
  obtain ⟨f, htext, hamount, rfl⟩ := exists_form_text d a
  rw [← htext, ofText_text, hamount, Fixed.ofText_text h]
  rfl

/-- A coin's text is read as its denomination and its amount, truncated. -/
theorem ofText_text_of_small (f : Form) (h : |f.amount.value| < 10 ^ 102) :
    ofText f.text = .ok ⟨f.denom.text, Fixed.truncated f.amount.value⟩ ∨
      10 ^ 18 < f.text.length ∧ ofText f.text = refuse (.badNumeral f.amount.text) := by
  rw [ofText_text]
  rcases Fixed.ofText_eq_truncated f.amount.denotes h with hread | ⟨hlength, hread⟩
  · left
    rw [hread]
    rfl
  · right
    rw [hread]
    refine ⟨hlength.trans_le ?_, rfl⟩
    rw [← String.length_toList, ← String.length_toList, f.toList_text, Amount.text, String.toList_ofList,
      Form.chars]
    simp only [List.length_append]
    omega

/-- **A coin is read from its text**: a text without the form of a coin is refused, and one that has the form
is read as its denomination and its amount truncated toward zero, if the amount is below 10¹⁰² in magnitude
and the text is not too long for any memory.  There is only one division of a text into these parts; so what
is written of a coin, as long as its amount has at most 120 digits, is read as the same coin. -/
theorem ofText_exact :
    (∀ s, (∀ f : Form, f.text ≠ s) → ofText s = refuse (.badCoin s)) ∧
    (∀ f : Form, |f.amount.value| < 10 ^ 102 →
      ofText f.text = .ok ⟨f.denom.text, Fixed.truncated f.amount.value⟩ ∨
        10 ^ 18 < f.text.length ∧ ofText f.text = refuse (.badNumeral f.amount.text)) ∧
    (∀ f g : Form, f.text = g.text → f = g) ∧
    ∀ (d : Denomination) (a : Fixed), a.Short → ofText (text ⟨d.text, a⟩) = .ok ⟨d.text, a⟩ :=
  ⟨fun _ => ofText_of_not_form, ofText_text_of_small, fun _ _ => Form.ext_of_text,
    fun d _ => ofText_text_of_short d⟩

/-- A coin whose denomination continues like a number. -/
def spaced : Form where
  lead := [' ']
  amount := ⟨true, ['1'], some ['5'], List.forall_mem_singleton.mpr rfl, List.forall_mem_singleton.mpr rfl,
    by decide, by decide⟩
  gap := [' ']
  denom := ⟨'e', ['3', 'a'], by decide, fun _ h => .inl (List.all_eq_true.mp rfl _ h), by decide⟩
  trail := []
  isBlank_lead := List.forall_mem_singleton.mpr rfl
  isBlank_gap := List.forall_mem_singleton.mpr rfl
  isBlank_trail := nofun

theorem value_spaced : spaced.amount.value = -3 / 2 := by
  have hsign : spaced.amount.spelling.sign.isMinus = true := rfl
  have hwhole : runValue spaced.amount.spelling.whole = 1 := by decide
  have hdecimals : runValue spaced.amount.spelling.decimals = 5 := by decide
  have hlength : spaced.amount.spelling.decimals.length = 1 := rfl
  have hexponent : spaced.amount.spelling.exponent = 0 := rfl
  rw [Amount.value, Numeral.Spelling.value, if_pos hsign, Numeral.Spelling.magnitude, hwhole, hdecimals,
    hlength, hexponent]
  norm_num

/-- The `e` belongs to the denomination, and the amount is −1.5. -/
theorem spaced_read : |spaced.amount.value| < 10 ^ 102 ∧
    ofText " -1.5 e3a" = .ok ⟨"e3a", ⟨-1500000000000000000⟩⟩ := by
  have hsmall : |spaced.amount.value| < 10 ^ 102 := by
    rw [value_spaced]
    norm_num [abs_lt]
  have htext : spaced.text = " -1.5 e3a" := by decide
  have hdenom : spaced.denom.text = "e3a" := by decide
  have htruncated : Fixed.truncated (-3 / 2) = ⟨-1500000000000000000⟩ := by
    rw [Fixed.truncated, if_neg (by norm_num), Fixed.scale]
    refine congrArg Fixed.mk (Int.ceil_eq_iff.mpr ?_)
    norm_num
  have hread := ofText_exact.2.1 spaced hsmall
  rw [htext, hdenom, value_spaced, htruncated] at hread
  rcases hread with hread | ⟨hlength, -⟩
  · exact ⟨hsmall, hread⟩
  · exact absurd hlength (by decide)

end WeightedMarket.Coin
