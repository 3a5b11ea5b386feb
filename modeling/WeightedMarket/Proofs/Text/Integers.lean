/-
  Integers as they are written by hand.

  An integer is a run of digits with a sign in front of it; its digits may be of any script, single
  underscores may part them into groups, and blanks may stand around it.  `Handwritten` lists these parts,
  and `Handwritten.value` is the integer that the digits denote, whatever the reader makes of them.

  The reader accepts exactly the texts that are written so, and answers with the integer
  (`Text.integer?_eq_some_iff`).
-/
import WeightedMarket.Proofs.Text.Spelling
import WeightedMarket.Text.Integer

namespace WeightedMarket.Text

/-! ## Groups of digits -/

/-- A group: digits of any script, and at least one. -/
structure IsGroup (g : List Char) : Prop where
  isDecimal : ∀ c ∈ g, IsDecimal c
  ne_nil : g ≠ []

/-- Groups that go on after a digit, an underscore in front of each. -/
def continued (groups : List (List Char)) : List Char := groups.flatMap ('_' :: ·)

@[simp] theorem continued_nil : continued [] = [] := rfl

@[simp] theorem continued_cons (g : List Char) (gs : List (List Char)) :
    continued (g :: gs) = '_' :: (g ++ continued gs) := rfl

/-- The number that digits make after those of `seen`. -/
def valueAfter (seen : Nat) (ds : List Char) : Nat :=
  ds.foldl (fun n c => 10 * n + (digit? c).getD 0) seen

theorem runValue_cons {c : Char} {d : Nat} (h : digit? c = some d) (ds : List Char) :
    runValue (c :: ds) = valueAfter d ds := by
  simp [runValue, valueAfter, h]

theorem valueAfter_cons {c : Char} {d : Nat} (h : digit? c = some d) (seen : Nat) (ds : List Char) :
    valueAfter seen (c :: ds) = valueAfter (10 * seen + d) ds := by
  simp [valueAfter, h]

/-- Digits are counted from left to right, so a run can be cut anywhere. -/
theorem valueAfter_append (seen : Nat) (ds es : List Char) :
    valueAfter seen (ds ++ es) = valueAfter (valueAfter seen ds) es :=
  List.foldl_append

/-! ## Reading groups -/

/-- A digit after a digit is taken. -/
theorem moreDigits?_digit {c : Char} {d : Nat} (h : digit? c = some d) (seen : Nat) (r : List Char) :
    moreDigits? seen (c :: r) = moreDigits? (10 * seen + d) r := by
  have hunderscore : c ≠ '_' := by
    rintro rfl
    exact absurd (Option.isSome_of_eq_some h) (by decide)
  rw [moreDigits?.eq_def]
  split
  · next heq => cases heq
  · next heq =>
    cases heq
    exact absurd rfl hunderscore
  · next heq =>
    cases heq
    rw [h]

/-- An underscore is taken together with the digit after it. -/
theorem moreDigits?_underscore {c : Char} {d : Nat} (h : digit? c = some d) (seen : Nat)
    (r : List Char) : moreDigits? seen ('_' :: c :: r) = moreDigits? (10 * seen + d) r := by
  rw [moreDigits?, h]

/-- A run of digits is read before what follows it. -/
theorem moreDigits?_append {ds : List Char} (hds : ∀ c ∈ ds, IsDecimal c) (seen : Nat) (r : List Char) :
    moreDigits? seen (ds ++ r) = moreDigits? (valueAfter seen ds) r := by
  induction ds generalizing seen with
  | nil => rfl
  | cons c ds ih =>
    rw [List.forall_mem_cons] at hds
    obtain ⟨d, hd⟩ := Option.isSome_iff_exists.mp hds.1
    rw [List.cons_append, moreDigits?_digit hd, ih hds.2, valueAfter_cons hd]

/-- Groups with underscores between them are read as their digits. -/
theorem moreDigits?_continued {gs : List (List Char)} (hgs : ∀ g ∈ gs, IsGroup g) (seen : Nat) :
    moreDigits? seen (continued gs) = some (valueAfter seen gs.flatten) := by
  induction gs generalizing seen with
  | nil => rfl
  | cons g gs ih =>
    rw [List.forall_mem_cons] at hgs
    obtain ⟨hdecimal, hne⟩ := hgs.1
    obtain ⟨c, ds, rfl⟩ := List.exists_cons_of_ne_nil hne
    rw [List.forall_mem_cons] at hdecimal
    obtain ⟨d, hd⟩ := Option.isSome_iff_exists.mp hdecimal.1
    rw [continued_cons, List.cons_append, moreDigits?_underscore hd, moreDigits?_append hdecimal.2, ih hgs.2,
      List.flatten_cons, List.cons_append, valueAfter_cons hd, valueAfter_append]

/-- What was read after a digit is the rest of its group and groups after it. -/
theorem exists_groups_of_moreDigits? {seen n : Nat} {cs : List Char} (h : moreDigits? seen cs = some n) :
    ∃ ds gs, (∀ c ∈ ds, IsDecimal c) ∧ (∀ g ∈ gs, IsGroup g) ∧ cs = ds ++ continued gs := by
  induction seen, cs using moreDigits?.induct with
  | case1 seen => exact ⟨[], [], List.forall_mem_nil _, List.forall_mem_nil _, rfl⟩
  | case2 seen c r d hd ih =>
    -- an underscore and a digit open a group
    rw [moreDigits?_underscore hd] at h
    obtain ⟨ds, gs, hds, hgs, rfl⟩ := ih h
    have hgroup : IsGroup (c :: ds) :=
      ⟨List.forall_mem_cons.mpr ⟨Option.isSome_of_eq_some hd, hds⟩, List.cons_ne_nil c ds⟩
    exact ⟨[], (c :: ds) :: gs, List.forall_mem_nil _, List.forall_mem_cons.mpr ⟨hgroup, hgs⟩, rfl⟩
  | case3 seen c r hnone =>
    rw [moreDigits?, hnone] at h
    cases h
  | case4 seen c r hother d hd ih =>
    -- a digit goes on with its group
    rw [moreDigits?_digit hd] at h
    obtain ⟨ds, gs, hds, hgs, rfl⟩ := ih h
    exact ⟨c :: ds, gs, List.forall_mem_cons.mpr ⟨Option.isSome_of_eq_some hd, hds⟩, hgs, rfl⟩
  | case5 seen c r hother hnone =>
    rw [moreDigits?, hnone] at h
    · cases h
    · exact hother

/-! ## Handwriting -/

/-- The parts of an integer: groups of digits with a sign in front. -/
structure Handwritten where
  sign : Numeral.Sign
  first : List Char
  others : List (List Char)
  isGroup_first : IsGroup first
  isGroup_others : ∀ g ∈ others, IsGroup g

namespace Handwritten

/-- The characters without the blanks around them. -/
def chars (w : Handwritten) : List Char := w.sign.chars ++ (w.first ++ continued w.others)

/-- The digits without the underscores among them. -/
def digits (w : Handwritten) : List Char := w.first ++ w.others.flatten

/-- **The integer** that is written. -/
def value (w : Handwritten) : Int := if w.sign.isMinus then -(runValue w.digits : Int) else runValue w.digits

/-- A text is an integer in handwriting if it has its characters, with blanks around them. -/
def Spells (w : Handwritten) (s : String) : Prop :=
  ∃ lead trail, s.toList = lead ++ w.chars ++ trail ∧ (∀ c ∈ lead, isIntegerPadding c = true) ∧
    ∀ c ∈ trail, isIntegerPadding c = true

end Handwritten

/-! ## Reading an integer -/

/-- A first digit opens the groups that are read. -/
theorem natural?_groups {g : List Char} {gs : List (List Char)} (hg : IsGroup g) (hgs : ∀ g ∈ gs, IsGroup g) :
    natural? (g ++ continued gs) = some (runValue (g ++ gs.flatten)) := by
  obtain ⟨hdecimal, hne⟩ := hg
  obtain ⟨c, ds, rfl⟩ := List.exists_cons_of_ne_nil hne
  rw [List.forall_mem_cons] at hdecimal
  obtain ⟨d, hd⟩ := Option.isSome_iff_exists.mp hdecimal.1
  have hread : natural? (c :: (ds ++ continued gs)) = moreDigits? d (ds ++ continued gs) := by
    rw [natural?, hd]
  rw [List.cons_append, hread, moreDigits?_append hdecimal.2, moreDigits?_continued hgs, List.cons_append,
    runValue_cons hd, valueAfter_append]

/-- What is read as a number is a group of digits, and groups that go on after underscores. -/
theorem exists_groups_of_natural? {n : Nat} {cs : List Char} (h : natural? cs = some n) :
    ∃ g gs, IsGroup g ∧ (∀ g ∈ gs, IsGroup g) ∧ cs = g ++ continued gs := by
  cases cs with
  | nil => cases h
  | cons c r =>
    rw [natural?] at h
    split at h
    · next d hd =>
      obtain ⟨ds, gs, hds, hgs, rfl⟩ := exists_groups_of_moreDigits? h
      have hgroup : IsGroup (c :: ds) :=
        ⟨List.forall_mem_cons.mpr ⟨Option.isSome_of_eq_some hd, hds⟩, List.cons_ne_nil c ds⟩
      exact ⟨c :: ds, gs, hgroup, hgs, rfl⟩
    · cases h

/-- A sign is read before digits. -/
theorem signed?_append (g : Numeral.Sign) {r : List Char} (hr : ∀ c ∈ r.head?, IsDecimal c) :
    signed? (g.chars ++ r) = (natural? r).map fun n => if g.isMinus then -(n : Int) else n := by
  cases g with
  | plus => rfl
  | minus => rfl
  | absent =>
    -- digits are not taken for a sign
    rw [Numeral.Sign.chars, List.nil_append, signed?]
    · rfl
    · rintro r rfl
      exact absurd (hr '-' rfl) (by decide)
    · rintro r rfl
      exact absurd (hr '+' rfl) (by decide)

/-- What is read as an integer is a sign, or none, and a number. -/
theorem exists_sign_of_signed? {i : Int} {cs : List Char} (h : signed? cs = some i) :
    ∃ (g : Numeral.Sign) (r : List Char) (n : Nat), cs = g.chars ++ r ∧ natural? r = some n := by
  have hread {r : List Char} {f : Int → Int}
      (hr : (natural? r >>= fun n => pure (n : Int)).map f = some i) : ∃ n, natural? r = some n := by
    cases hnatural : natural? r with
    | none =>
      rw [hnatural] at hr
      cases hr
    | some n => exact ⟨n, rfl⟩
  unfold signed? at h
  split at h
  · next r =>
    obtain ⟨n, hn⟩ := hread h
    exact ⟨.minus, r, n, rfl, hn⟩
  · next r =>
    obtain ⟨n, hn⟩ := hread h
    exact ⟨.plus, r, n, rfl, hn⟩
  · obtain ⟨n, hn⟩ := hread h
    exact ⟨.absent, cs, n, rfl, hn⟩

/-- What stands around an integer is blank. -/
theorem isBlank_of_isIntegerPadding {c : Char} (h : isIntegerPadding c = true) : isBlank c = true := by
  unfold isIntegerPadding at h
  split at h
  · rw [Bool.or_eq_true, beq_iff_eq, Bool.and_eq_true, decide_eq_true_iff, decide_eq_true_iff] at h
    simp only [isBlank, Bool.or_eq_true, Bool.and_eq_true, decide_eq_true_iff]
    omega
  · exact h

theorem isIntegerPadding_eq_false {c : Char} (h : isBlank c = false) : isIntegerPadding c = false := by
  by_contra hpadding
  rw [isBlank_of_isIntegerPadding (Bool.eq_true_of_not_eq_false hpadding)] at h
  cases h

namespace Handwritten

variable (w : Handwritten)

/-- The characters of an integer, without padding, are read as it. -/
theorem signed?_chars : signed? w.chars = some w.value := by
  have hhead : ∀ c ∈ (w.first ++ continued w.others).head?, IsDecimal c := by
    obtain ⟨hdecimal, hne⟩ := w.isGroup_first
    obtain ⟨c, ds, hfirst⟩ := List.exists_cons_of_ne_nil hne
    rw [hfirst]
    rintro _ ⟨⟩
    exact hdecimal c (hfirst ▸ List.mem_cons_self)
  rw [chars, signed?_append _ hhead, natural?_groups w.isGroup_first w.isGroup_others]
  rfl

/-- There is no blank among the characters. -/
theorem isBlank_of_mem_chars : ∀ c ∈ w.chars, isBlank c = false := by
  have hgroup {g : List Char} (hg : IsGroup g) : ∀ c ∈ g, isBlank c = false := fun c hc =>
    isBlank_of_isDecimal (hg.isDecimal c hc)
  simp only [chars, continued, List.forall_mem_append, List.forall_mem_flatMap, List.forall_mem_cons]
  exact ⟨Numeral.isBlank_chars w.sign, hgroup w.isGroup_first, fun g hg =>
    ⟨rfl, hgroup (w.isGroup_others g hg)⟩⟩

/-- A text in which an integer is written is read as that integer. -/
theorem integer?_of_spells {s : String} (h : w.Spells s) : integer? s = some w.value := by
  obtain ⟨lead, trail, hs, hlead, htrail⟩ := h
  have hchars : ∀ c ∈ w.chars, isIntegerPadding c = false := fun c hc =>
    isIntegerPadding_eq_false (w.isBlank_of_mem_chars c hc)
  have hreverse : ∀ c ∈ w.chars.reverse, isIntegerPadding c = false := fun c hc =>
    hchars c (List.mem_reverse.mp hc)
  rw [integer?, hs, trim_append hlead (stops_of_forall hchars) (stops_of_forall hreverse) htrail,
    w.signed?_chars]

end Handwritten

/-- An integer that was read was in handwriting. -/
theorem exists_spells_of_integer? {s : String} {i : Int} (h : integer? s = some i) :
    ∃ w : Handwritten, w.Spells s := by
  obtain ⟨g, r, n, hsigned, hnatural⟩ := exists_sign_of_signed? h
  obtain ⟨first, others, hfirst, hothers, rfl⟩ := exists_groups_of_natural? hnatural
  obtain ⟨lead, trail, hlead, htrail, hs⟩ := exists_trim isIntegerPadding s.toList
  rw [hsigned] at hs
  exact ⟨⟨g, first, others, hfirst, hothers⟩, lead, trail, hs, hlead, htrail⟩

/-- **What is read as an integer**: the texts in which it is written by hand, and no others. -/
theorem integer?_eq_some_iff {s : String} {i : Int} :
    integer? s = some i ↔ ∃ w : Handwritten, w.Spells s ∧ w.value = i := by
  constructor
  · intro h
    obtain ⟨w, hw⟩ := exists_spells_of_integer? h
    have hvalue := w.integer?_of_spells hw
    rw [h] at hvalue
    exact ⟨w, hw, (Option.some.inj hvalue).symm⟩
  · rintro ⟨w, hw, rfl⟩
    exact w.integer?_of_spells hw

/-! ## Integers that were written -/

/-- What an integer is written as. -/
def Handwritten.printed (n : Int) : Handwritten where
  sign := if n < 0 then .minus else .absent
  first := digitsOf n.natAbs
  others := []
  isGroup_first :=
    ⟨fun _ hc => isDecimal_of_isDigit (isDigit_of_mem_digitsOf hc), digitsOf_ne_nil n.natAbs⟩
  isGroup_others := List.forall_mem_nil _

/-- The shortest form is a handwriting, too. -/
theorem Handwritten.printed_spells (n : Int) : (printed n).Spells (toString n) := by
  refine ⟨[], [], ?_, List.forall_mem_nil _, List.forall_mem_nil _⟩
  have hsign : (if n < 0 then Numeral.Sign.minus else .absent).chars = if n < 0 then ['-'] else [] := by
    split <;> rfl
  rw [toList_toString_int, chars, printed, hsign, continued_nil, List.append_nil, List.nil_append,
    List.append_nil]

theorem Handwritten.value_printed (n : Int) : (printed n).value = n := by
  have hdigits : (printed n).digits = digitsOf n.natAbs := List.append_nil _
  have hsign : (printed n).sign = if n < 0 then .minus else .absent := rfl
  rw [value, hdigits, runValue_digitsOf, hsign]
  by_cases hneg : n < 0
  · rw [if_pos hneg, if_pos (by decide)]
    omega
  · rw [if_neg hneg, if_neg (by decide)]
    omega

/-- **An integer** that was written is read back. -/
theorem integer?_toString (n : Int) : integer? (toString n) = some n :=
  integer?_eq_some_iff.mpr ⟨.printed n, Handwritten.printed_spells n, Handwritten.value_printed n⟩

/-- Different integers are written differently. -/
theorem toString_inj {m n : Int} : toString m = toString n ↔ m = n := by
  refine ⟨fun h => ?_, congrArg toString⟩
  have hread := congrArg integer? h
  rw [integer?_toString, integer?_toString] at hread
  exact Option.some.inj hread

/-! ## Lengths -/

/-- The integers that can be written are those below a power of ten. -/
theorem isWritable_iff {n : Int} : IsWritable n ↔ n.natAbs < 10 ^ maxIntegerDigits :=
  digitCount_le_iff (by decide)

/-- The shortest integer that is too long to be written. -/
theorem not_isWritable_pow : ¬ IsWritable ((10 ^ maxIntegerDigits : Nat) : Int) := by
  rw [isWritable_iff, Int.natAbs_natCast]
  exact Nat.lt_irrefl _

/-- A run of digits denotes less than the power of ten of its length. -/
theorem valueAfter_lt {ds : List Char} (h : ∀ c ∈ ds, IsDecimal c) (seen : Nat) :
    valueAfter seen ds < (seen + 1) * 10 ^ ds.length := by
  induction ds generalizing seen with
  | nil =>
    rw [List.length_nil, Nat.pow_zero, Nat.mul_one]
    exact Nat.lt_succ_self seen
  | cons c ds ih =>
    rw [List.forall_mem_cons] at h
    obtain ⟨d, hd⟩ := Option.isSome_iff_exists.mp h.1
    have hdigit := digit?_lt hd
    rw [valueAfter_cons hd]
    calc valueAfter (10 * seen + d) ds
        < (10 * seen + d + 1) * 10 ^ ds.length := ih h.2 _
      _ ≤ ((seen + 1) * 10) * 10 ^ ds.length := Nat.mul_le_mul_right _ (by omega)
      _ = (seen + 1) * 10 ^ (ds.length + 1) := by rw [Nat.mul_assoc, Nat.pow_succ, Nat.mul_comm 10]

theorem digitsIn_append (cs ds : List Char) : digitsIn (cs ++ ds) = digitsIn cs + digitsIn ds :=
  List.countP_append

/-- Digits all count. -/
theorem digitsIn_run {ds : List Char} (h : ∀ c ∈ ds, IsDecimal c) : digitsIn ds = ds.length :=
  List.countP_eq_length.mpr h

/-- What stands around an integer has no digits. -/
theorem digitsIn_padding {cs : List Char} (h : ∀ c ∈ cs, isIntegerPadding c = true) : digitsIn cs = 0 := by
  refine List.countP_eq_zero.mpr fun c hc hdecimal => ?_
  have hblank := isBlank_of_isIntegerPadding (h c hc)
  rw [isBlank_of_isDecimal hdecimal] at hblank
  cases hblank

/-- Underscores do not count as digits. -/
theorem digitsIn_continued {gs : List (List Char)} (h : ∀ g ∈ gs, IsGroup g) :
    digitsIn (continued gs) = gs.flatten.length := by
  induction gs with
  | nil => rfl
  | cons g gs ih =>
    rw [List.forall_mem_cons] at h
    have hunderscore : digitsIn ['_'] = 0 := by decide
    rw [continued_cons, ← List.singleton_append, digitsIn_append, hunderscore, digitsIn_append,
      digitsIn_run h.1.isDecimal, ih h.2, List.flatten_cons, List.length_append, Nat.zero_add]

namespace Handwritten

variable (w : Handwritten)

/-- All digits of an integer are decimal, of whatever script. -/
theorem isDecimal_digits : ∀ c ∈ w.digits, IsDecimal c := by
  simp only [digits, List.forall_mem_append, List.mem_flatten]
  refine ⟨w.isGroup_first.isDecimal, ?_⟩
  rintro c ⟨g, hg, hc⟩
  exact (w.isGroup_others g hg).isDecimal c hc

/-- An integer of few digits can be written. -/
theorem isWritable_value (h : w.digits.length ≤ maxIntegerDigits) : IsWritable w.value := by
  have hlt := valueAfter_lt w.isDecimal_digits 0
  rw [Nat.zero_add, Nat.one_mul] at hlt
  have hvalue : w.value.natAbs = valueAfter 0 w.digits := by
    rw [value]
    split
    · rw [Int.natAbs_neg]
      rfl
    · rfl
  rw [isWritable_iff, hvalue]
  exact Nat.lt_of_lt_of_le hlt (Nat.pow_le_pow_right (by decide) h)

/-- Blanks, the sign and underscores do not count. -/
theorem digitsIn_of_spells {s : String} (h : w.Spells s) : digitsIn s.toList = w.digits.length := by
  obtain ⟨lead, trail, hs, hlead, htrail⟩ := h
  have hsign : digitsIn w.sign.chars = 0 := by cases w.sign <;> decide
  rw [hs, digitsIn_append, digitsIn_append, digitsIn_padding hlead, digitsIn_padding htrail, chars,
    digitsIn_append, digitsIn_append, hsign, digitsIn_run w.isGroup_first.isDecimal,
    digitsIn_continued w.isGroup_others, digits, List.length_append, Nat.zero_add, Nat.zero_add, Nat.add_zero]

end Handwritten

/-- **What is read as an integer of limited length**: the texts in which it is written by hand with few
enough digits. -/
theorem readInteger_eq_ok_iff {s : String} {i : Int} : readInteger s = .ok i ↔
    ∃ w : Handwritten, w.Spells s ∧ w.digits.length ≤ maxIntegerDigits ∧ w.value = i := by
  constructor
  · intro h
    unfold readInteger at h
    split at h
    · cases h
    · next n hn =>
      obtain ⟨w, hw, rfl⟩ := integer?_eq_some_iff.mp hn
      dsimp only at h
      split at h
      · next hshort =>
        rw [w.digitsIn_of_spells hw] at hshort
        exact ⟨w, hw, hshort, Except.ok.inj h⟩
      · cases h
  · rintro ⟨w, hw, hshort, rfl⟩
    rw [readInteger, w.integer?_of_spells hw, w.digitsIn_of_spells hw]
    exact if_pos hshort

/-- An integer that can be written is read back from its text. -/
theorem readInteger_toString {n : Int} (h : IsWritable n) : readInteger (toString n) = .ok n := by
  refine readInteger_eq_ok_iff.mpr ⟨.printed n, Handwritten.printed_spells n, ?_, Handwritten.value_printed n⟩
  rw [show (Handwritten.printed n).digits = digitsOf n.natAbs from List.append_nil _]
  exact h

end WeightedMarket.Text
