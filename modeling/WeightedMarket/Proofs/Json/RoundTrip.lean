/-
  Values that were written are read back.

  Every JSON value is the one that its own text is read as (`ofText?_pretty`), whatever characters its
  strings hold and however large its numbers are, as long as it is not nested too deeply.

  A reader takes what was written and leaves the rest.  For that the rest must not go on where a number
  has ended; after an item or a member there is a comma or a new line, which `Ends` says.  The fuel of a
  reader is covered by the length of the text it takes: a string needs one for every character and for
  its closing quote, a list one for every item, and every item is preceded by a new line.
-/
import WeightedMarket.Json.Printer
import WeightedMarket.Json.Reader
import WeightedMarket.Proofs.Text.Digits

namespace WeightedMarket.Json

open Text

/-! ## White space -/

/-- The white space of the format. -/
def isSpace (c : Char) : Bool := c == ' ' || c == '\t' || c == '\n' || c == '\r'

theorem skipSpace_cons {c : Char} (h : isSpace c = false) (r : List Char) :
    skipSpace (c :: r) = c :: r := by
  rw [skipSpace, List.dropWhile_cons_of_neg]
  simpa [isSpace] using h

/-- A new line and its indentation are space. -/
theorem skipSpace_newLine (level : Nat) (cs : List Char) :
    skipSpace (newLine level ++ cs) = skipSpace cs := by
  rw [skipSpace, List.dropWhile_append_of_pos]
  · rfl
  · intro c hc
    rcases List.mem_cons.mp hc with rfl | hc
    · rfl
    · rw [List.eq_of_mem_replicate hc]
      rfl

/-- The text ends here, or goes on with a comma or a new line. -/
def Ends (rest : List Char) : Prop := ∀ c ∈ rest.head?, c = ',' ∨ c = '\n'

/-- No number goes on where a value ends. -/
theorem Ends.noDigit {rest : List Char} (h : Ends rest) : NoDigit rest := by
  intro c hc
  rcases h c hc with rfl | rfl <;> rfl

/-- A value ends before a new line. -/
theorem ends_newLine (level : Nat) (cs : List Char) : Ends (newLine level ++ cs) := by
  intro c hc
  exact .inr (Option.some.inj hc).symm

/-! ## Strings -/

/-- The sixteen hexadecimal digits are read back. -/
theorem hexValue?_digitChar : ∀ d < 16, hexValue? (Nat.digitChar d) = some d := by decide

/-- Four hexadecimal digits give the number back. -/
theorem hex4?_hexDigits {n : Nat} (h : n < 0x10000) (r : List Char) :
    hex4? (hexDigits 4 n ++ r) = some (n, r) := by
  have hdigits : hexDigits 4 n ++ r = Nat.digitChar (n / 4096 % 16) :: Nat.digitChar (n / 256 % 16) ::
      Nat.digitChar (n / 16 % 16) :: Nat.digitChar (n / 1 % 16) :: r := rfl
  have hvalue (m : Nat) : hexValue? (Nat.digitChar (m % 16)) = some (m % 16) :=
    hexValue?_digitChar _ (Nat.mod_lt m (by decide))
  rw [hdigits, hex4?]
  simp only [hvalue, Option.bind_eq_bind, Option.bind_some, Option.pure_def, Option.some.injEq,
    Prod.mk.injEq, and_true]
  omega

/-- One character of a string is read back from its escape. -/
theorem stringBody?_escaped (fuel : Nat) (c : Char) (r : List Char) :
    stringBody? (fuel + 1) (escaped c ++ r) = (stringBody? fuel r).map fun p => (c :: p.1, p.2) := by
  have hescape (e : List Char) (h : escape? (e ++ r) = some (c, r)) :
      stringBody? (fuel + 1) ('\\' :: e ++ r) = (stringBody? fuel r).map fun p => (c :: p.1, p.2) := by
    rw [List.cons_append, stringBody?, if_neg (by decide), if_pos rfl, h]
    simp only [Option.bind_eq_bind, Option.bind_some]
    cases stringBody? fuel r <;> rfl
  unfold escaped
  split
  · next h => exact hescape [c] (by rcases h with rfl | rfl <;> rfl)
  split
  · next h => exact hescape ['b'] (by rw [h]; rfl)
  split
  · next h => exact hescape ['f'] (by rw [h]; rfl)
  split
  · next h => exact hescape ['n'] (by rw [h]; rfl)
  split
  · next h => exact hescape ['r'] (by rw [h]; rfl)
  split
  · next h => exact hescape ['t'] (by rw [h]; rfl)
  split
  · next h =>
    -- a control character without a letter
    have hhex := hex4?_hexDigits (n := c.toNat) (by omega) r
    refine hescape ('u' :: hexDigits 4 c.toNat) ?_
    show unicodeEscape? (hexDigits 4 c.toNat ++ r) = some (c, r)
    have hlow : c.toNat < 0xD800 ∨ 0xE000 ≤ c.toNat := .inl (by omega)
    simp [unicodeEscape?, hhex, hlow]
  · next hquote _ _ _ _ _ hcontrol =>
    rw [not_or] at hquote
    rw [List.singleton_append, stringBody?, if_neg hquote.1, if_neg hquote.2, if_neg hcontrol]
    cases stringBody? fuel r <;> rfl

/-- The characters of a text, each of them escaped if need be, are read back up to the closing quote. -/
theorem stringBody?_flatMap {s : List Char} {fuel : Nat} (h : s.length < fuel) (rest : List Char) :
    stringBody? fuel (s.flatMap escaped ++ '\x22' :: rest) = some (s, rest) := by
  induction s generalizing fuel with
  | nil =>
    obtain ⟨fuel, rfl⟩ := Nat.exists_eq_succ_of_ne_zero (Nat.ne_of_gt h)
    rfl
  | cons c s ih =>
    obtain ⟨fuel, rfl⟩ := Nat.exists_eq_succ_of_ne_zero (Nat.ne_of_gt (Nat.zero_lt_of_lt h))
    rw [List.length_cons] at h
    rw [List.flatMap_cons, List.append_assoc, stringBody?_escaped, ih (by omega)]
    rfl

theorem stringChars_append (s : String) (rest : List Char) :
    stringChars s ++ rest = '\x22' :: (s.toList.flatMap escaped ++ '\x22' :: rest) := by
  simp [stringChars]

/-- An escape is not shorter than its character. -/
theorem length_le_length_flatMap_escaped (s : List Char) : s.length ≤ (s.flatMap escaped).length := by
  have hescaped (c : Char) : 1 ≤ (escaped c).length := by
    unfold escaped
    repeat' split
    all_goals simp
  induction s with
  | nil => exact Nat.le_refl 0
  | cons c s ih =>
    have := hescaped c
    rw [List.flatMap_cons, List.length_append, List.length_cons]
    omega

/-- Escapes only make a text longer. -/
theorem length_add_two_le (s : String) : s.toList.length + 2 ≤ (stringChars s).length := by
  have := length_le_length_flatMap_escaped s.toList
  simp only [stringChars, List.length_append, List.length_cons, List.length_nil]
  omega

/-- A name and its colon are read back. -/
theorem name?_stringChars {k : String} {fuel : Nat} (h : (stringChars k).length ≤ fuel)
    (rest : List Char) : name? fuel (stringChars k ++ ':' :: rest) = some (k, rest) := by
  have hlength := length_add_two_le k
  rw [stringChars_append, name?]
  have hquote : skipSpace ('\x22' :: (k.toList.flatMap escaped ++ '\x22' :: ':' :: rest)) =
      '\x22' :: (k.toList.flatMap escaped ++ '\x22' :: ':' :: rest) := rfl
  have hcolon : skipSpace (':' :: rest) = ':' :: rest := rfl
  simp [hquote, stringBody?_flatMap (show k.toList.length < fuel by omega), hcolon]

/-! ## Numbers -/

section

variable {rest : List Char}

/-- Written digits are not a number with a zero in front. -/
theorem digitsOf_wellFormed (n : Nat) : ¬ ((digitsOf n).isEmpty = true ∨
    (digitsOf n).head? = some '0' ∧ (digitsOf n).length ≠ 1) := by
  rw [not_or]
  constructor
  · simp [digitsOf_ne_nil]
  · rintro ⟨hhead, hlength⟩
    by_cases hzero : n = 0
    · exact hlength (by rw [hzero]; rfl)
    · exact head?_digitsOf_ne hzero hhead

/-- Where a value ends there is no fraction. -/
theorem fraction?_of_ends (h : Ends rest) : fraction? rest = some ([], rest) := by
  unfold fraction?
  split
  · rcases h '.' rfl with heq | heq <;> exact absurd heq (by decide)
  · rfl

/-- Where a value ends there is no exponent. -/
theorem exponent?_of_ends (h : Ends rest) : exponent? rest = some (none, rest) := by
  cases rest with
  | nil => rfl
  | cons c r =>
    have hne : ¬ (c = 'e' ∨ c = 'E') := by
      rcases h c rfl with rfl | rfl <;> decide
    rw [exponent?.eq_def]
    exact if_neg hne

/-- The digits of an integer are read as it, with the sign that was seen before them. -/
theorem number?_digitsOf (negative : Bool) (n : Nat) (h : Ends rest) :
    number? negative (digitsOf n ++ rest) = some (.int (if negative then -n else n), rest) := by
  have hdigits : ∀ c ∈ digitsOf n, c.isDigit = true := fun c hc => isDigit_of_mem_digitsOf hc
  rw [number?, takeWhile_isDigit hdigits h.noDigit, dropWhile_isDigit hdigits h.noDigit,
    if_neg (digitsOf_wellFormed n), fraction?_of_ends h]
  simp [exponent?_of_ends h]

/-- The exponent of a number is read back with its sign. -/
theorem exponent?_signedExponent (e : Int) (h : Ends rest) :
    exponent? ('e' :: (Decimal.signedExponent e ++ rest)) = some (some e, rest) := by
  have hdigits : ∀ c ∈ digitsOf e.natAbs, c.isDigit = true := fun c hc => isDigit_of_mem_digitsOf hc
  have htake := takeWhile_isDigit hdigits h.noDigit
  have hdrop := dropWhile_isDigit hdigits h.noDigit
  by_cases hneg : e < 0
  · have hchars : Decimal.signedExponent e ++ rest = '-' :: (digitsOf e.natAbs ++ rest) := by
      simp [Decimal.signedExponent, hneg]
    rw [hchars]
    simp only [exponent?, Char.reduceEq, or_false, if_true, if_false, htake, hdrop, List.isEmpty_iff,
      digitsOf_ne_nil, ofDigitChars_digitsOf, Option.some.injEq, Prod.mk.injEq,
      and_true]
    omega
  · have hchars : Decimal.signedExponent e ++ rest = '+' :: (digitsOf e.natAbs ++ rest) := by
      simp [Decimal.signedExponent, hneg]
    rw [hchars]
    simp only [exponent?, Char.reduceEq, or_false, if_true, if_false, htake, hdrop, List.isEmpty_iff,
      digitsOf_ne_nil, ofDigitChars_digitsOf, Bool.false_eq_true, Option.some.injEq, Prod.mk.injEq,
      and_true]
    omega

/-- A number with an exponent is read as the decimal that it was written for. -/
theorem number?_real (d : Decimal) (h : Ends rest) :
    number? d.negative (digitsOf d.coefficient ++ 'e' :: (Decimal.signedExponent d.exponent ++ rest)) =
      some (.real (.finite d), rest) := by
  have hdigits : ∀ c ∈ digitsOf d.coefficient, c.isDigit = true := fun c hc =>
    isDigit_of_mem_digitsOf hc
  have hletter : NoDigit ('e' :: (Decimal.signedExponent d.exponent ++ rest)) :=
    noDigit_cons (by decide) _
  have hfraction : fraction? ('e' :: (Decimal.signedExponent d.exponent ++ rest)) =
      some ([], 'e' :: (Decimal.signedExponent d.exponent ++ rest)) := rfl
  rw [number?, takeWhile_isDigit hdigits hletter, dropWhile_isDigit hdigits hletter,
    if_neg (digitsOf_wellFormed d.coefficient), hfraction]
  simp [exponent?_signedExponent d.exponent h]

/-- A sign and a digit start a number. -/
theorem scalar?_signed {c : Char} (hc : c.isDigit = true) (negative : Bool) (r : List Char) :
    scalar? ((if negative then ['-'] else []) ++ c :: r) = number? negative (c :: r) := by
  have hne : ∀ d : Char, d.isDigit = false → c ≠ d := by
    rintro d hd rfl
    exact absurd hc (by rw [hd]; decide)
  cases negative with
  | true =>
    show scalar? ('-' :: c :: r) = _
    unfold scalar?
    split
    case h_6 heq => exact absurd (List.cons.inj (List.cons.inj heq).2).1 (hne 'I' (by decide))
    case h_7 heq =>
      cases heq
      rfl
    case h_8 hminus => exact absurd rfl (hminus _)
    -- none of the words starts with a minus
    all_goals
      next heq => exact absurd (List.cons.inj heq).1 (by decide)
  | false =>
    show scalar? (c :: r) = _
    unfold scalar?
    split
    case h_8 => rfl
    all_goals
      next heq => exact absurd (List.cons.inj heq).1 (hne _ (by decide))

end

/-! ## One step of a reader -/

/-- What is skipped in front of a value does not matter. -/
theorem value?_congr {cs cs' : List Char} (h : skipSpace cs = skipSpace cs') (depth fuel : Nat) :
    value? depth fuel cs = value? depth fuel cs' := by
  rw [value?.eq_def, value?.eq_def, h]

/-- A new line before a value is skipped. -/
theorem value?_newLine (depth fuel level : Nat) (cs : List Char) :
    value? depth fuel (newLine level ++ cs) = value? depth fuel cs :=
  value?_congr (skipSpace_newLine level cs) depth fuel

/-- A new line before the items of a list is skipped. -/
theorem items?_newLine (depth fuel level : Nat) (cs : List Char) :
    items? depth fuel (newLine level ++ cs) = items? depth fuel cs := by
  rw [items?.eq_def, items?.eq_def]
  simp only [value?_newLine]

/-- A new line before the members of an object is skipped. -/
theorem members?_newLine (depth fuel level : Nat) (cs : List Char) :
    members? depth fuel (newLine level ++ cs) = members? depth fuel cs := by
  rw [members?.eq_def, members?.eq_def]
  simp only [name?, skipSpace_newLine]

section

variable {c : Char} {r cs : List Char} (depth fuel : Nat)

/-- A value that starts with neither a quote nor a bracket is a word or a number. -/
theorem value?_scalar (hspace : isSpace c = false) (hquote : c ≠ '\x22') (hlist : c ≠ '[')
    (hobject : c ≠ '\x7b') : value? depth (fuel + 1) (c :: r) = scalar? (c :: r) := by
  rw [value?.eq_def, skipSpace_cons hspace]
  split
  · contradiction
  · next heq => exact absurd (List.cons.inj heq).1 hquote
  · next heq => exact absurd (List.cons.inj heq).1 hlist
  · next heq => exact absurd (List.cons.inj heq).1 hobject
  · rfl

/-- A number is read after its sign. -/
theorem value?_number (negative : Bool) (n : Nat) (rest : List Char) :
    value? depth (fuel + 1) ((if negative then ['-'] else []) ++ (digitsOf n ++ rest)) =
      number? negative (digitsOf n ++ rest) := by
  cases hdigits : digitsOf n with
  | nil => exact absurd hdigits (digitsOf_ne_nil n)
  | cons c r =>
    have hc : c.isDigit = true := isDigit_of_mem_digitsOf (n := n) (by rw [hdigits]; simp)
    have hne : ∀ d : Char, d.isDigit = false → c ≠ d := by
      rintro d hd rfl
      exact absurd hc (by rw [hd]; decide)
    rw [List.cons_append, ← scalar?_signed hc]
    cases negative with
    | true => exact value?_scalar depth fuel rfl (by decide) (by decide) (by decide)
    | false =>
      refine value?_scalar depth fuel ?_ (hne _ (by decide)) (hne _ (by decide)) (hne _ (by decide))
      simp [isSpace, hne]

/-- A word is read as far as it goes. -/
theorem word?_append (w : String) (rest : List Char) : word? w (w.toList ++ rest) = some rest := by
  have hprefix : w.toList.isPrefixOf (w.toList ++ rest) = true := by simp
  rw [word?, if_pos hprefix, ← String.length_toList, List.drop_left]

/-- A word is read as the value that it stands for. -/
theorem value?_word {w : String} {v : Json} (hw : w.toList = c :: cs) (hspace : isSpace c = false)
    (hquote : c ≠ '\x22') (hlist : c ≠ '[') (hobject : c ≠ '\x7b') (rest : List Char)
    (hscalar : scalar? (c :: (cs ++ rest)) = (word? w (c :: (cs ++ rest))).map fun r => (v, r)) :
    value? depth (fuel + 1) (w.toList ++ rest) = some (v, rest) := by
  have hrest := word?_append w rest
  rw [hw, List.cons_append] at hrest ⊢
  rw [value?_scalar depth fuel hspace hquote hlist hobject, hscalar, hrest]
  rfl

/-- A quote opens a text. -/
theorem value?_string : value? depth (fuel + 1) ('\x22' :: r) =
    (stringBody? fuel r).map fun p => (.text (String.ofList p.1), p.2) := by
  rw [value?.eq_2 _ _ _ _ (skipSpace_cons rfl r)]
  cases stringBody? fuel r <;> rfl

theorem value?_emptyList : value? (depth + 1) (fuel + 1) ('[' :: ']' :: r) = some (.list [], r) :=
  value?.eq_4 _ _ _ _ _ (skipSpace_cons rfl _) nofun (skipSpace_cons rfl r)

/-- A bracket opens a list, whose items follow unless it is closed at once. -/
theorem value?_list (hspace : skipSpace cs = c :: r) (hne : c ≠ ']') :
    value? (depth + 1) (fuel + 1) ('[' :: cs) =
      (items? depth fuel (c :: r)).map fun p => (.list p.1, p.2) := by
  rw [value?.eq_5 _ _ _ _ (skipSpace_cons rfl cs), hspace]
  · cases items? depth fuel (c :: r) <;> rfl
  · intro r' heq
    rw [hspace] at heq
    exact hne (List.cons.inj heq).1

theorem value?_emptyObject :
    value? (depth + 1) (fuel + 1) ('\x7b' :: '\x7d' :: r) = some (.object [], r) :=
  value?.eq_7 _ _ _ _ _ (skipSpace_cons rfl _) nofun (skipSpace_cons rfl r)

/-- A brace opens an object, whose members follow unless it is closed at once. -/
theorem value?_object (hspace : skipSpace cs = c :: r) (hne : c ≠ '\x7d') :
    value? (depth + 1) (fuel + 1) ('\x7b' :: cs) =
      (members? depth fuel (c :: r)).map fun p => (.object p.1, p.2) := by
  rw [value?.eq_8 _ _ _ _ (skipSpace_cons rfl cs), hspace]
  · cases members? depth fuel (c :: r) <;> rfl
  · intro r' heq
    rw [hspace] at heq
    exact hne (List.cons.inj heq).1

end

section

variable {cs r r' : List Char} {v : Json} {k : String} {depth fuel : Nat}

/-- An item before the closing bracket is the last. -/
theorem items?_last (hv : value? depth fuel cs = some (v, r)) (hr : skipSpace r = ']' :: r') :
    items? depth (fuel + 1) cs = some ([v], r') := by
  rw [items?]
  simp [hv, hr]

/-- After a comma more items follow. -/
theorem items?_more (hv : value? depth fuel cs = some (v, r)) (hr : skipSpace r = ',' :: r') :
    items? depth (fuel + 1) cs = (items? depth fuel r').map fun p => (v :: p.1, p.2) := by
  rw [items?]
  simp only [hv, Option.bind_eq_bind, Option.bind_some, hr]
  cases items? depth fuel r' <;> rfl

/-- A member before the closing brace is the last. -/
theorem members?_last {cs' : List Char} (hk : name? fuel cs = some (k, cs'))
    (hv : value? depth fuel cs' = some (v, r)) (hr : skipSpace r = '\x7d' :: r') :
    members? depth (fuel + 1) cs = some ([(k, v)], r') := by
  rw [members?]
  simp [hk, hv, hr]

/-- After a comma more members follow. -/
theorem members?_more {cs' : List Char} (hk : name? fuel cs = some (k, cs'))
    (hv : value? depth fuel cs' = some (v, r)) (hr : skipSpace r = ',' :: r') :
    members? depth (fuel + 1) cs = (members? depth fuel r').map fun p => ((k, v) :: p.1, p.2) := by
  rw [members?]
  simp only [hk, hv, Option.bind_eq_bind, Option.bind_some, hr]
  cases members? depth fuel r' <;> rfl

end

/-! ## Values -/

mutual

/-- How deeply lists and objects are nested in a value. -/
def nesting : Json → Nat
  | .list vs => itemsNesting vs + 1
  | .object ms => membersNesting ms + 1
  | _ => 0

/-- The deepest nesting of some items. -/
def itemsNesting : List Json → Nat
  | [] => 0
  | v :: vs => max (nesting v) (itemsNesting vs)

/-- The deepest nesting of some members. -/
def membersNesting : List (String × Json) → Nat
  | [] => 0
  | (_, v) :: ms => max (nesting v) (membersNesting ms)

end

/-- An item is nested no deeper than the items of its list are. -/
theorem nesting_le_of_mem {v : Json} {vs : List Json} (h : v ∈ vs) : v.nesting ≤ itemsNesting vs := by
  induction vs with
  | nil => cases h
  | cons w vs ih =>
    rw [itemsNesting]
    rcases List.mem_cons.mp h with rfl | h
    · exact Nat.le_max_left _ _
    · exact Nat.le_trans (ih h) (Nat.le_max_right _ _)

/-- A member is nested no deeper than the members of its object are. -/
theorem nesting_le_of_mem_members {k : String} {v : Json} {ms : List (String × Json)}
    (h : (k, v) ∈ ms) : v.nesting ≤ membersNesting ms := by
  induction ms with
  | nil => cases h
  | cons m ms ih =>
    obtain ⟨j, w⟩ := m
    rw [membersNesting]
    rcases List.mem_cons.mp h with heq | h
    · cases heq
      exact Nat.le_max_left _ _
    · exact Nat.le_trans (ih h) (Nat.le_max_right _ _)

/-- The text of a value starts neither with white space nor with a closing bracket. -/
theorem prettyAt_eq_cons (level : Nat) (v : Json) :
    ∃ c r, prettyAt level v = c :: r ∧ isSpace c = false ∧ c ≠ ']' := by
  have hnumber (negative : Bool) (n : Nat) (rest : List Char) : ∃ c r,
      (if negative then ['-'] else []) ++ digitsOf n ++ rest = c :: r ∧ isSpace c = false ∧
        c ≠ ']' := by
    cases negative with
    | true => exact ⟨'-', _, rfl, rfl, by decide⟩
    | false =>
      cases hdigits : digitsOf n with
      | nil => exact absurd hdigits (digitsOf_ne_nil n)
      | cons c r =>
        have hc : c.isDigit = true := isDigit_of_mem_digitsOf (n := n) (by rw [hdigits]; simp)
        obtain ⟨hle, hge⟩ := toNat_of_isDigit hc
        refine ⟨c, _, rfl, ?_, ?_⟩
        · simp only [isSpace, Bool.or_eq_false_iff, beq_eq_false_iff_ne]
          refine ⟨⟨⟨?_, ?_⟩, ?_⟩, ?_⟩ <;> rintro rfl <;> exact absurd hc (by decide)
        · rintro rfl
          exact absurd hc (by decide)
  cases v with
  | null => exact ⟨'n', _, rfl, rfl, by decide⟩
  | bool b => cases b <;> exact ⟨_, _, rfl, rfl, by decide⟩
  | int n =>
    have h := hnumber (decide (n < 0)) n.natAbs []
    simpa [prettyAt, intChars] using h
  | real x =>
    cases x with
    | finite d =>
      have h := hnumber d.negative d.coefficient ('e' :: Decimal.signedExponent d.exponent)
      simpa [prettyAt, realChars, Decimal.sign] using h
    | infinite negative => cases negative <;> exact ⟨_, _, rfl, rfl, by decide⟩
    | notANumber => exact ⟨'N', _, rfl, rfl, by decide⟩
  | text s => exact ⟨'\x22', _, rfl, rfl, by decide⟩
  | list vs =>
    rw [prettyAt, block]
    split <;> exact ⟨'[', _, rfl, rfl, by decide⟩
  | object ms =>
    rw [prettyAt, block]
    split <;> exact ⟨'\x7b', _, rfl, rfl, by decide⟩

/-- The lines that follow the first one of a block. -/
def following (level : Nat) (lines : List (List Char)) : List Char :=
  lines.flatMap fun line => ',' :: (newLine level ++ line)

/-- The lines of a block follow each other with a comma and a new line between them. -/
theorem following_append (level : Nat) (line : List Char) (lines : List (List Char)) (rest : List Char) :
    following level (line :: lines) ++ rest =
      ',' :: (newLine level ++ (line ++ (following level lines ++ rest))) := by
  simp [following]

theorem length_following (level : Nat) (line : List Char) (lines : List (List Char)) :
    (following level (line :: lines)).length =
      line.length + (following level lines).length + 2 * level + 2 := by
  simp only [following, newLine, List.flatMap_cons, List.length_append, List.length_cons,
    List.length_replicate]
  omega

theorem intercalate_map_newLine (level : Nat) (line : List Char) (lines : List (List Char)) :
    [','].intercalate ((line :: lines).map (newLine level ++ ·)) =
      newLine level ++ (line ++ following level lines) := by
  induction lines generalizing line with
  | nil => simp [following]
  | cons line' lines ih =>
    rw [List.map_cons, List.map_cons, List.intercalate_cons_cons, ← List.map_cons, ih]
    simp [following]

/-- A block is its first line and the lines that follow, between the brackets. -/
theorem block_append (level : Nat) (opening closing : Char) (line : List Char)
    (lines : List (List Char)) (rest : List Char) :
    block level opening closing (line :: lines) ++ rest =
      opening :: (newLine (level + 1) ++
        (line ++ (following (level + 1) lines ++ (newLine level ++ closing :: rest)))) := by
  rw [block, if_neg (by simp), intercalate_map_newLine]
  simp

/-- A value in a block ends before the next line or before the end of the block. -/
theorem ends_following (level level' : Nat) (lines : List (List Char)) (rest : List Char) :
    Ends (following level lines ++ (newLine level' ++ rest)) := by
  cases lines with
  | nil => exact ends_newLine level' rest
  | cons line lines => exact fun c hc => .inl (Option.some.inj hc).symm

/-- A value is read back from its text, at every depth and in front of every rest. -/
def Reads (v : Json) : Prop :=
  ∀ (depth fuel level : Nat) (rest : List Char), v.nesting ≤ depth →
    (prettyAt level v).length ≤ fuel → Ends rest →
      value? depth fuel (prettyAt level v ++ rest) = some (v, rest)

/-- Items that are read back one by one are read back together. -/
theorem items?_pretty {depth : Nat} {v : Json} {vs : List Json} (hreads : ∀ w ∈ v :: vs, Reads w)
    (hdepth : ∀ w ∈ v :: vs, w.nesting ≤ depth) {fuel level : Nat}
    (hfuel : (prettyAt level v).length + (following level (prettyItems level vs)).length < fuel)
    (level' : Nat) (rest : List Char) :
    items? depth fuel (prettyAt level v ++ (following level (prettyItems level vs) ++
      (newLine level' ++ ']' :: rest))) = some (v :: vs, rest) := by
  induction vs generalizing v fuel with
  | nil =>
    obtain ⟨fuel, rfl⟩ := Nat.exists_eq_succ_of_ne_zero (Nat.ne_of_gt (Nat.zero_lt_of_lt hfuel))
    refine items?_last ?_ ((skipSpace_newLine level' _).trans (skipSpace_cons rfl rest))
    exact hreads v (by simp) depth fuel level _ (hdepth v (by simp)) (by omega) (ends_newLine level' _)
  | cons w vs ih =>
    obtain ⟨fuel, rfl⟩ := Nat.exists_eq_succ_of_ne_zero (Nat.ne_of_gt (Nat.zero_lt_of_lt hfuel))
    rw [List.forall_mem_cons] at hreads hdepth
    rw [prettyItems, length_following] at hfuel
    have hv := hreads.1 depth fuel level _ hdepth.1 (show (prettyAt level v).length ≤ fuel by omega)
      (ends_following level level' (prettyItems level (w :: vs)) (']' :: rest))
    rw [prettyItems, following_append] at hv ⊢
    rw [items?_more hv (skipSpace_cons rfl _), items?_newLine, ih hreads.2 hdepth.2 (by omega)]
    rfl

/-- Members whose values are read back one by one are read back together. -/
theorem members?_pretty {depth : Nat} {k : String} {v : Json} {ms : List (String × Json)}
    (hreads : ∀ m ∈ (k, v) :: ms, Reads m.2) (hdepth : ∀ m ∈ (k, v) :: ms, m.2.nesting ≤ depth)
    {fuel level : Nat}
    (hfuel : (stringChars k).length + (prettyAt level v).length +
      (following level (prettyMembers level ms)).length < fuel)
    (level' : Nat) (rest : List Char) :
    members? depth fuel (stringChars k ++ ':' :: ' ' :: (prettyAt level v ++
      (following level (prettyMembers level ms) ++ (newLine level' ++ '\x7d' :: rest)))) =
        some ((k, v) :: ms, rest) := by
  have hblank (cs : List Char) : skipSpace (' ' :: cs) = skipSpace cs := rfl
  induction ms generalizing k v fuel with
  | nil =>
    obtain ⟨fuel, rfl⟩ := Nat.exists_eq_succ_of_ne_zero (Nat.ne_of_gt (Nat.zero_lt_of_lt hfuel))
    refine members?_last (name?_stringChars (by omega) _) ?_
      ((skipSpace_newLine level' _).trans (skipSpace_cons rfl rest))
    rw [value?_congr (hblank _)]
    exact hreads (k, v) (by simp) depth fuel level _ (hdepth (k, v) (by simp))
      (show (prettyAt level v).length ≤ fuel by omega) (ends_newLine level' _)
  | cons m ms ih =>
    obtain ⟨j, w⟩ := m
    obtain ⟨fuel, rfl⟩ := Nat.exists_eq_succ_of_ne_zero (Nat.ne_of_gt (Nat.zero_lt_of_lt hfuel))
    rw [List.forall_mem_cons] at hreads hdepth
    rw [prettyMembers, length_following] at hfuel
    simp only [List.length_append, List.length_cons] at hfuel
    have hv := hreads.1 depth fuel level _ hdepth.1 (show (prettyAt level v).length ≤ fuel by omega)
      (ends_following level level' (prettyMembers level ((j, w) :: ms)) ('\x7d' :: rest))
    rw [← value?_congr (hblank _), prettyMembers, following_append] at hv
    rw [prettyMembers, following_append,
      members?_more (name?_stringChars (by omega) _) hv (skipSpace_cons rfl _), members?_newLine,
      List.append_assoc, List.cons_append, List.cons_append, ih hreads.2 hdepth.2 (by omega)]
    rfl

/-- A reader of a value has fuel. -/
theorem exists_fuel {level fuel : Nat} {v : Json} (h : (prettyAt level v).length ≤ fuel) :
    ∃ f, fuel = f + 1 := by
  obtain ⟨c, r, hchars, _, _⟩ := prettyAt_eq_cons level v
  rw [hchars, List.length_cons] at h
  exact ⟨fuel - 1, by omega⟩

theorem reads_null : Reads .null := by
  intro depth fuel level rest _ hfuel _
  obtain ⟨fuel, rfl⟩ := exists_fuel hfuel
  exact value?_word depth fuel (w := "null") rfl rfl (by decide) (by decide) (by decide) rest rfl

theorem reads_bool (b : Bool) : Reads (.bool b) := by
  intro depth fuel level rest _ hfuel _
  obtain ⟨fuel, rfl⟩ := exists_fuel hfuel
  cases b with
  | true =>
    exact value?_word depth fuel (w := "true") rfl rfl (by decide) (by decide) (by decide) rest rfl
  | false =>
    exact value?_word depth fuel (w := "false") rfl rfl (by decide) (by decide) (by decide) rest rfl

/-- An integer reads back, with its sign. -/
theorem reads_int (n : Int) : Reads (.int n) := by
  intro depth fuel level rest _ hfuel hrest
  obtain ⟨fuel, rfl⟩ := exists_fuel hfuel
  have hnumber := number?_digitsOf (decide (n < 0)) n.natAbs hrest
  have hvalue := value?_number depth fuel (decide (n < 0)) n.natAbs rest
  simp only [decide_eq_true_eq] at hnumber hvalue
  rw [prettyAt, intChars, List.append_assoc, hvalue, hnumber, Option.some.injEq, Prod.mk.injEq,
    Json.int.injEq]
  refine ⟨?_, rfl⟩
  split <;> omega

/-- A number with an exponent reads back, and so do the words for what is not finite. -/
theorem reads_real (x : JsonReal) : Reads (.real x) := by
  intro depth fuel level rest _ hfuel hrest
  obtain ⟨fuel, rfl⟩ := exists_fuel hfuel
  cases x with
  | finite d =>
    rw [prettyAt, realChars, Decimal.sign, List.append_assoc, List.append_assoc, List.cons_append,
      value?_number]
    exact number?_real d hrest
  | infinite negative =>
    cases negative with
    | true =>
      show value? depth (fuel + 1) ('-' :: 'I' :: ("nfinity".toList ++ rest)) = _
      rw [value?_scalar depth fuel rfl (by decide) (by decide) (by decide)]
      show (word? "Infinity" ("Infinity".toList ++ rest)).map _ = _
      rw [word?_append]
      rfl
    | false =>
      exact value?_word depth fuel (w := "Infinity") rfl rfl (by decide) (by decide) (by decide) rest
        rfl
  | notANumber =>
    exact value?_word depth fuel (w := "NaN") rfl rfl (by decide) (by decide) (by decide) rest rfl

/-- A text reads back, whatever characters it has. -/
theorem reads_text (s : String) : Reads (.text s) := by
  intro depth fuel level rest _ hfuel _
  obtain ⟨fuel, rfl⟩ := exists_fuel hfuel
  have hlength := length_add_two_le s
  rw [prettyAt] at hfuel ⊢
  rw [stringChars_append, value?_string, stringBody?_flatMap (by omega), Option.map_some,
    String.ofList_toList]

/-- A list reads back if its items do. -/
theorem reads_list {vs : List Json} (h : ∀ v ∈ vs, Reads v) : Reads (.list vs) := by
  intro depth fuel level rest hdepth hfuel _
  obtain ⟨fuel, rfl⟩ := exists_fuel hfuel
  rw [nesting] at hdepth
  obtain ⟨depth, rfl⟩ := Nat.exists_eq_succ_of_ne_zero (Nat.ne_of_gt (Nat.zero_lt_of_lt hdepth))
  cases vs with
  | nil => exact value?_emptyList depth fuel
  | cons v vs =>
    obtain ⟨c, r, hv, hspace, hne⟩ := prettyAt_eq_cons (level + 1) v
    have hnesting : ∀ w ∈ v :: vs, w.nesting ≤ depth := fun w hw =>
      Nat.le_trans (nesting_le_of_mem hw) (Nat.le_of_succ_le_succ hdepth)
    have hblock := block_append level '[' ']' (prettyAt (level + 1) v) (prettyItems (level + 1) vs)
    have hlength := congrArg List.length (hblock [])
    rw [prettyAt, prettyItems] at hfuel ⊢
    simp only [List.append_nil, List.length_cons, List.length_append, List.length_nil, newLine,
      List.length_replicate] at hlength
    have hcovered : (prettyAt (level + 1) v).length +
        (following (level + 1) (prettyItems (level + 1) vs)).length < fuel := by omega
    have hitems := items?_pretty h hnesting hcovered level rest
    rw [hblock]
    rw [hv, List.cons_append] at hitems ⊢
    rw [value?_list depth fuel ((skipSpace_newLine _ _).trans (skipSpace_cons hspace _)) hne, hitems]
    rfl

/-- An object reads back if the values of its members do. -/
theorem reads_object {ms : List (String × Json)} (h : ∀ m ∈ ms, Reads m.2) : Reads (.object ms) := by
  intro depth fuel level rest hdepth hfuel _
  obtain ⟨fuel, rfl⟩ := exists_fuel hfuel
  rw [nesting] at hdepth
  obtain ⟨depth, rfl⟩ := Nat.exists_eq_succ_of_ne_zero (Nat.ne_of_gt (Nat.zero_lt_of_lt hdepth))
  cases ms with
  | nil => exact value?_emptyObject depth fuel
  | cons m ms =>
    obtain ⟨k, v⟩ := m
    have hnesting : ∀ m ∈ (k, v) :: ms, m.2.nesting ≤ depth := fun m hm =>
      Nat.le_trans (nesting_le_of_mem_members hm) (Nat.le_of_succ_le_succ hdepth)
    have hblock := block_append level '\x7b' '\x7d'
      (stringChars k ++ ':' :: ' ' :: prettyAt (level + 1) v) (prettyMembers (level + 1) ms)
    have hlength := congrArg List.length (hblock [])
    rw [prettyAt, prettyMembers] at hfuel ⊢
    simp only [List.append_nil, List.length_cons, List.length_append, List.length_nil, newLine,
      List.length_replicate] at hlength
    have hcovered : (stringChars k).length + (prettyAt (level + 1) v).length +
        (following (level + 1) (prettyMembers (level + 1) ms)).length < fuel := by omega
    have hmembers := members?_pretty h hnesting hcovered level rest
    rw [hblock, List.append_assoc, List.cons_append, List.cons_append]
    rw [stringChars_append] at hmembers ⊢
    rw [value?_object depth fuel ((skipSpace_newLine _ _).trans (skipSpace_cons rfl _)) (by decide),
      hmembers]
    rfl

/-- Every value is read back from its text: by induction on the value. -/
theorem reads : ∀ v : Json, Reads v
  | .null => reads_null
  | .bool b => reads_bool b
  | .int n => reads_int n
  | .real x => reads_real x
  | .text s => reads_text s
  | .list vs => reads_list fun v _ => reads v
  | .object ms => reads_object fun ⟨_, v⟩ _ => reads v
termination_by v => sizeOf v
decreasing_by
  · next h =>
    have := List.sizeOf_lt_of_mem h
    simp only [list.sizeOf_spec]
    omega
  · next h =>
    have := List.sizeOf_lt_of_mem h
    simp only [object.sizeOf_spec, Prod.mk.sizeOf_spec] at this ⊢
    omega

/-- **Every text that was written is read** as the value that it was written for. -/
theorem ofText?_pretty (v : Json) (h : v.nesting ≤ maxDepth) : ofText? v.pretty = some v := by
  have hread := reads v maxDepth (2 * (prettyAt 0 v).length + 1) 0 [] h (by omega) nofun
  rw [List.append_nil] at hread
  rw [ofText?, pretty, String.toList_ofList, ofChars?, hread]
  rfl

end WeightedMarket.Json
