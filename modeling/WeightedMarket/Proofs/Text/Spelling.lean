/-
  Numerals as they are spelled.

  A numeral may carry a sign, have digits before the point, after it or on both sides, and end with a power
  of ten; its digits may be of any script, and underscores may stand anywhere in it and blanks around it.
  `Numeral.Spelling` lists these parts, and `Spelling.value` is the rational number that they denote by the
  rules of positional notation, whatever the reader makes of them.

  The reader takes the digits on both sides of the point as one number and moves the point by the power of
  ten (`Spelling.ofText_of_spells`), which is the same number (`Spelling.value_decimal`).
-/
import Mathlib.Algebra.Order.Field.Rat
import Mathlib.Tactic.FieldSimp
import Mathlib.Tactic.Ring
import WeightedMarket.Proofs.Text.Leading

namespace WeightedMarket

/-! ## Digits of any script -/

namespace Text

/-- A decimal digit of some script. -/
def IsDecimal (c : Char) : Prop := (digit? c).isSome

instance : DecidablePred IsDecimal := fun c => inferInstanceAs (Decidable ((digit? c).isSome = true))

theorem isDecimal_of_all {ds : List Char} (h : ds.all (fun c => (digit? c).isSome) = true) :
    ∀ c ∈ ds, IsDecimal c :=
  List.all_eq_true.mp h

/-- The digits of ASCII are decimal. -/
theorem isDecimal_of_isDigit {c : Char} (h : c.isDigit = true) : IsDecimal c := by
  rw [IsDecimal, digit?_of_isDigit h]
  rfl

/-- The number that a run of digits stands for. -/
def runValue (ds : List Char) : Nat := ds.foldl (fun n c => 10 * n + (digit? c).getD 0) 0

/-- Every run of the table has ten digits. -/
theorem digit?_lt {c : Char} {d : Nat} (h : digit? c = some d) : d < 10 := by
  unfold digit? at h
  split at h
  · next hdigit =>
    obtain ⟨-, hle⟩ := toNat_of_isDigit hdigit
    have := Option.some.inj h
    omega
  · split at h
    · cases h
    · obtain ⟨z, hz, rfl⟩ := Option.map_eq_some_iff.mp h
      have hrun := List.find?_some hz
      rw [Bool.and_eq_true, decide_eq_true_iff, decide_eq_true_iff] at hrun
      omega

/-- No blank is among the digits of any script. -/
theorem isBlank_of_isDecimal {c : Char} (h : IsDecimal c) : isBlank c = false := by
  have htable : ∀ z ∈ digitZeros, ∀ i < 10, isBlank (Char.ofNat (z + i)) = false := by decide +kernel
  obtain ⟨d, hd⟩ := Option.isSome_iff_exists.mp h
  unfold digit? at hd
  split at hd
  · next hdigit => exact isBlank_of_isDigit hdigit
  · split at hd
    · cases hd
    · obtain ⟨z, hz, -⟩ := Option.map_eq_some_iff.mp hd
      have hrun := List.find?_some hz
      rw [Bool.and_eq_true, decide_eq_true_iff, decide_eq_true_iff] at hrun
      have hblank := htable z (List.mem_of_find?_eq_some hz) (c.toNat - z) (by omega)
      rwa [Nat.add_sub_cancel' hrun.1, Char.ofNat_toNat] at hblank

/-- A decimal digit of any script is translated into one of ASCII. -/
theorem isDigit_asciiDigit {c : Char} (h : IsDecimal c) : (asciiDigit c).isDigit = true := by
  obtain ⟨d, hd⟩ := Option.isSome_iff_exists.mp h
  have hlt := digit?_lt hd
  simp only [asciiDigit, hd, Char.isDigit_iff_toNat, Nat.toNat_digitChar_of_lt_ten hlt]
  show 48 ≤ 48 + d ∧ 48 + d ≤ 57
  omega

/-- The translated digit has the value of the original. -/
theorem toNat_asciiDigit {c : Char} (h : IsDecimal c) :
    (asciiDigit c).toNat - '0'.toNat = (digit? c).getD 0 := by
  obtain ⟨d, hd⟩ := Option.isSome_iff_exists.mp h
  simp only [asciiDigit, hd, Nat.toNat_digitChar_of_lt_ten (digit?_lt hd), Option.getD_some]
  exact Nat.add_sub_cancel_left 48 d

/-- Digits of any script have the value of their ASCII forms. -/
theorem ofDigitChars_map_asciiDigit {ds : List Char} (h : ∀ c ∈ ds, IsDecimal c) :
    Nat.ofDigitChars 10 (ds.map asciiDigit) 0 = runValue ds := by
  rw [Nat.ofDigitChars, runValue, List.foldl_map]
  exact List.foldl_ext _ _ 0 fun n c hc => by rw [toNat_asciiDigit (h c hc)]

/-- The digits of a number stand for it. -/
theorem runValue_digitsOf (n : Nat) : runValue (digitsOf n) = n := by
  have hdigit : ∀ c ∈ digitsOf n, c.isDigit = true := fun c hc => isDigit_of_mem_digitsOf hc
  have hascii : (digitsOf n).map asciiDigit = digitsOf n :=
    (List.map_congr_left fun c hc => Numeral.asciiDigit_of_isDigit (hdigit c hc)).trans (List.map_id _)
  rw [← ofDigitChars_map_asciiDigit fun c hc => isDecimal_of_isDigit (hdigit c hc), hascii,
    ofDigitChars_digitsOf]

/-- Digits in front of others count as often as the others have places. -/
theorem ofDigitChars_map_append {ds es : List Char} (hds : ∀ c ∈ ds, IsDecimal c)
    (hes : ∀ c ∈ es, IsDecimal c) : Nat.ofDigitChars 10 ((ds ++ es).map asciiDigit) 0 =
      runValue ds * 10 ^ es.length + runValue es := by
  rw [List.map_append, Nat.ofDigitChars_append, Nat.ofDigitChars_eq_ofDigitChars_zero,
    ofDigitChars_map_asciiDigit hds, ofDigitChars_map_asciiDigit hes, List.length_map, Nat.mul_comm]

/-! ## Blanks around a text -/

/-- What is trimmed stands on both sides of a text that neither starts nor ends with it. -/
theorem trim_append {p : Char → Bool} {lead body trail : List Char} (hlead : ∀ c ∈ lead, p c = true)
    (hfront : Stops p body) (hback : Stops p body.reverse) (htrail : ∀ c ∈ trail, p c = true) :
    trim p (lead ++ body ++ trail) = body := by
  have hreverse : ∀ c ∈ trail.reverse, p c = true := fun c hc => htrail c (List.mem_reverse.mp hc)
  cases body with
  | nil =>
    have hall : ∀ c ∈ lead ++ [] ++ trail, p c = true := by
      simpa [or_imp, forall_and] using ⟨hlead, htrail⟩
    rw [trim, List.dropWhile_eq_nil_iff.mpr hall]
    rfl
  | cons c body =>
    have hfront : Stops p (c :: body ++ trail) := stops_cons (hfront c rfl) _
    rw [trim, List.append_assoc, dropWhile_of_stops hlead hfront, List.reverse_append,
      dropWhile_of_stops hreverse hback, List.reverse_reverse]

/-- A text is what is trimmed on both sides and what is left of it. -/
theorem exists_trim (p : Char → Bool) (cs : List Char) : ∃ lead trail, (∀ c ∈ lead, p c = true) ∧
    (∀ c ∈ trail, p c = true) ∧ cs = lead ++ trim p cs ++ trail := by
  refine ⟨cs.takeWhile p, ((cs.dropWhile p).reverse.takeWhile p).reverse,
    fun c hc => List.mem_takeWhile_imp hc, fun c hc => List.mem_takeWhile_imp (List.mem_reverse.mp hc), ?_⟩
  rw [trim, List.append_assoc, ← List.reverse_append, List.takeWhile_append_dropWhile, List.reverse_reverse,
    List.takeWhile_append_dropWhile]

end Text

open Text

/-- The number that a decimal value is, without its sign. -/
def Decimal.magnitude (d : Decimal) : ℚ := d.coefficient * 10 ^ d.exponent

/-- The number that a decimal value is. -/
def Decimal.value (d : Decimal) : ℚ := if d.negative then -d.magnitude else d.magnitude

namespace Numeral

/-! ## Spellings -/

/-- The sign in front of a number, which may be left out. -/
inductive Sign where
  | absent
  | plus
  | minus
  deriving DecidableEq, Repr

namespace Sign

def chars : Sign → List Char
  | absent => []
  | plus => ['+']
  | minus => ['-']

def isMinus (g : Sign) : Bool := g == minus

end Sign

/-- The power of ten after a number: the letter `e`, in either case, and a run of digits with a sign. -/
structure Power where
  capital : Bool
  sign : Sign
  digits : List Char
  isDecimal : ∀ c ∈ digits, IsDecimal c
  ne_nil : digits ≠ []

namespace Power

def chars (p : Power) : List Char := (if p.capital then 'E' else 'e') :: (p.sign.chars ++ p.digits)

def exponent (p : Power) : Int := Decimal.signed p.sign.isMinus (runValue p.digits)

end Power

/-- The parts of a numeral: digits before a point or after it or both, with a sign and a power of ten. -/
structure Spelling where
  sign : Sign
  whole : List Char
  /-- The digits after the point, if there is a point. -/
  fraction : Option (List Char)
  power : Option Power
  isDecimal_whole : ∀ c ∈ whole, IsDecimal c
  isDecimal_fraction : ∀ c ∈ fraction.getD [], IsDecimal c
  ne_nil : whole ++ fraction.getD [] ≠ []

namespace Spelling

/-- The digits after the point. -/
def decimals (n : Spelling) : List Char := n.fraction.getD []

/-- The power of ten that the number is multiplied by. -/
def exponent (n : Spelling) : Int := (n.power.map Power.exponent).getD 0

/-- The characters without the underscores among them and the blanks around them. -/
def chars (n : Spelling) : List Char :=
  n.sign.chars ++ (n.whole ++ (pointed n.fraction ++ (n.power.map Power.chars).getD []))

/-- The number without its sign, by the rules of positional notation. -/
def magnitude (n : Spelling) : ℚ :=
  (runValue n.whole + runValue n.decimals / 10 ^ n.decimals.length) * 10 ^ n.exponent

/-- **The number** that is spelled. -/
def value (n : Spelling) : ℚ := if n.sign.isMinus then -n.magnitude else n.magnitude

/-- A text is a spelling if it has its characters, with blanks around them and underscores among them. -/
def Spells (n : Spelling) (s : String) : Prop :=
  ∃ lead body trail, s.toList = lead ++ body ++ trail ∧ (∀ c ∈ lead, isBlank c = true) ∧
    (∀ c ∈ trail, isBlank c = true) ∧ body.filter (· != '_') = n.chars

/-- What the reader makes of it: the digits on both sides of the point as one number. -/
def decimal (n : Spelling) : Decimal :=
  ⟨n.sign.isMinus, runValue n.whole * 10 ^ n.decimals.length + runValue n.decimals,
    n.exponent - n.decimals.length⟩

end Spelling

/-! ## Reading a spelling -/

theorem asciiDigit_chars (g : Sign) : g.chars.map asciiDigit = g.chars := by
  cases g <;> decide

theorem isBlank_chars (g : Sign) : ∀ c ∈ g.chars, isBlank c = false := by
  cases g with
  | absent => nofun
  | plus => exact List.forall_mem_singleton.mpr rfl
  | minus => exact List.forall_mem_singleton.mpr rfl

/-- A signed run of digits is read as a power of ten. -/
theorem exponent?_signed {ds : List Char} (hds : ∀ c ∈ ds, c.isDigit = true) (hne : ds ≠ []) (g : Sign) :
    exponent? (g.chars ++ ds) = some (Decimal.signed g.isMinus (valueOf ds)) := by
  have hdigits : (ds.isEmpty || !ds.all Char.isDigit) = false := by
    rw [List.all_eq_true.mpr hds, List.isEmpty_eq_false_iff.mpr hne]
    rfl
  have hsigned : exponent? (g.chars ++ ds) = if (ds.isEmpty || !ds.all Char.isDigit) = true then none
      else some (Decimal.signed g.isMinus (valueOf ds)) := by
    cases g with
    | absent =>
      rw [Sign.chars, List.nil_append, exponent?]
      · rfl
      -- digits are not taken for a sign
      · rintro r rfl
        exact absurd (hds '-' List.mem_cons_self) (by decide)
      · rintro r rfl
        exact absurd (hds '+' List.mem_cons_self) (by decide)
    | plus => rfl
    | minus => rfl
  rw [hsigned, hdigits]
  rfl

/-- A run of decimal digits is translated into one of ASCII. -/
theorem isDigit_of_mem_map {ds : List Char} (h : ∀ c ∈ ds, IsDecimal c) :
    ∀ c ∈ ds.map asciiDigit, c.isDigit = true := by
  intro c hc
  obtain ⟨d, hd, rfl⟩ := List.mem_map.mp hc
  exact isDigit_asciiDigit (h d hd)

theorem Power.isBlank_of_mem_chars (p : Power) : ∀ c ∈ p.chars, isBlank c = false := by
  rw [chars, List.forall_mem_cons, List.forall_mem_append]
  refine ⟨?_, isBlank_chars p.sign, fun c hc => isBlank_of_isDecimal (p.isDecimal c hc)⟩
  cases p.capital <;> rfl

/-- A power of ten ends a numeral. -/
theorem Power.ending?_chars (p : Power) : ending? (p.chars.map asciiDigit) = some p.exponent := by
  have hletter : asciiDigit (if p.capital then 'E' else 'e') = if p.capital then 'E' else 'e' := by
    cases p.capital <;> decide
  have hread := exponent?_signed (isDigit_of_mem_map p.isDecimal) (by simpa using p.ne_nil) p.sign
  rw [valueOf, ofDigitChars_map_asciiDigit p.isDecimal] at hread
  rw [chars, List.map_cons, List.map_append, asciiDigit_chars, hletter, ending?, if_pos, hread, exponent]
  cases p.capital
  · exact .inl rfl
  · exact .inr rfl

namespace Spelling

variable (n : Spelling)

/-- The decimals of a spelling are decimal digits. -/
theorem isDecimal_decimals : ∀ c ∈ n.decimals, IsDecimal c := n.isDecimal_fraction

/-- There is no blank among the characters of a number. -/
theorem isBlank_of_mem_chars : ∀ c ∈ n.chars, isBlank c = false := by
  simp only [chars, List.forall_mem_append]
  refine ⟨isBlank_chars n.sign, fun c hc => isBlank_of_isDecimal (n.isDecimal_whole c hc), ?_, ?_⟩
  · have hdecimal := n.isDecimal_fraction
    cases hfraction : n.fraction with
    | none => nofun
    | some ds =>
      rw [hfraction] at hdecimal
      exact List.forall_mem_cons.mpr ⟨rfl, fun c hc => isBlank_of_isDecimal (hdecimal c hc)⟩
  · cases n.power with
    | none => nofun
    | some p => exact p.isBlank_of_mem_chars

/-- The characters after the sign, with ASCII digits. -/
def ascii : List Char :=
  n.whole.map asciiDigit ++ (pointed (n.fraction.map (List.map asciiDigit)) ++
    ((n.power.map Power.chars).getD []).map asciiDigit)

/-- Only the digits of a spelling are translated. -/
theorem map_chars : n.chars.map asciiDigit = n.sign.chars ++ n.ascii := by
  have hpointed : (pointed n.fraction).map asciiDigit = pointed (n.fraction.map (List.map asciiDigit)) := by
    cases n.fraction with
    | none => rfl
    | some ds => rfl
  simp only [chars, ascii, List.map_append, asciiDigit_chars, hpointed]

theorem opens_ascii : Opens n.ascii := by
  have hne := n.ne_nil
  rw [ascii]
  cases hwhole : n.whole with
  | cons c ds =>
    have hc : c ∈ n.whole := hwhole ▸ List.mem_cons_self
    exact opens_cons (.inl (isDigit_asciiDigit (n.isDecimal_whole c hc))) _
  | nil =>
    cases hfraction : n.fraction with
    | none => exact absurd (by rw [hwhole, hfraction]; rfl) hne
    | some ds => exact opens_cons (.inr rfl) _

/-- What follows the sign is read as the decimal that the spelling stands for. -/
theorem number?_ascii : number? n.sign.isMinus n.ascii = reached n.decimal := by
  have hdecimals : ((n.fraction.map (List.map asciiDigit)).getD []) = n.decimals.map asciiDigit := by
    rw [decimals]
    cases n.fraction with
    | none => rfl
    | some ds => rfl
  have hending : ending? (((n.power.map Power.chars).getD []).map asciiDigit) = some n.exponent := by
    rw [exponent]
    cases n.power with
    | none => rfl
    | some p => exact p.ending?_chars
  have hread := number?_pointed _ _ (isDigit_of_mem_map n.isDecimal_whole)
    (by rw [hdecimals]; exact isDigit_of_mem_map n.isDecimal_decimals)
    (by rw [hdecimals, ← List.map_append]; simpa [decimals] using n.ne_nil) hending n.sign.isMinus
  rw [ascii, hread, hdecimals, ← List.map_append, valueOf,
    ofDigitChars_map_append n.isDecimal_whole n.isDecimal_decimals, List.length_map]
  rfl

/-- A text that is spelled is normalized to its sign and the translated rest: blanks and underscores are
gone. -/
theorem normalized_of_spells {s : String} (h : n.Spells s) :
    normalized s.toList = n.sign.chars ++ n.ascii := by
  obtain ⟨lead, body, trail, hs, hlead, htrail, hbody⟩ := h
  have hblank : ∀ c ∈ body, isBlank c = false := by
    intro c hc
    by_cases hunderscore : c = '_'
    · rw [hunderscore]
      rfl
    · refine n.isBlank_of_mem_chars c ?_
      rw [← hbody, List.mem_filter, bne_iff_ne]
      exact ⟨hc, hunderscore⟩
  have hreverse : ∀ c ∈ body.reverse, isBlank c = false := fun c hc => hblank c (List.mem_reverse.mp hc)
  rw [normalized, hs, trim_append hlead (stops_of_forall hblank) (stops_of_forall hreverse) htrail, hbody,
    map_chars]

/-- **A spelling is read** as the number that its digits make, with the point moved. -/
theorem ofText_of_spells {s : String} (h : n.Spells s) : ofText s = reached n.decimal := by
  have hnormalized := n.normalized_of_spells h
  rw [← number?_ascii, ofText]
  cases hsign : n.sign with
  | absent => exact ofChars_unsigned n.opens_ascii (by rw [hnormalized, hsign]; rfl)
  | plus => exact ofChars_plus n.opens_ascii (by rw [hnormalized, hsign]; rfl)
  | minus => exact ofChars_minus n.opens_ascii (by rw [hnormalized, hsign]; rfl)

/-- Moving the point does not change the number. -/
theorem value_decimal : n.decimal.value = n.value := by
  have hmagnitude : n.decimal.magnitude = n.magnitude := by
    rw [decimal, Decimal.magnitude, magnitude]
    dsimp only
    rw [zpow_sub₀ (by norm_num), zpow_natCast]
    push_cast
    field_simp
  rw [Decimal.value, hmagnitude, value, decimal]

end Spelling

end Numeral

end WeightedMarket
