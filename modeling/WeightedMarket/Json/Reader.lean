/-
  JSON read from text.

  The grammar is that of the format, with three words added for numbers that are not finite.  A
  text is refused as a whole: a lone surrogate, a control character inside a string, a zero in
  front of a digit, nesting beyond the given depth and anything after the value all make it
  unreadable.

  Every reader takes characters and answers a value and the characters that follow it.  Lists and
  objects are read with two bounds: `depth`, the nesting still allowed, and `fuel`, which the
  length of the text always covers because every item takes at least one character.
-/
import WeightedMarket.Json
import WeightedMarket.Text.Quoted

namespace WeightedMarket.Json

/-- Skips the white space of the format. -/
def skipSpace (cs : List Char) : List Char :=
  cs.dropWhile fun c => c == ' ' || c == '\t' || c == '\n' || c == '\r'

/-! ## Strings -/

/-- The value of a hexadecimal digit. -/
def hexValue? (c : Char) : Option Nat :=
  if c.isDigit then some (c.toNat - 48)
  else if 'a' ≤ c ∧ c ≤ 'f' then some (c.toNat - 87)
  else if 'A' ≤ c ∧ c ≤ 'F' then some (c.toNat - 55)
  else none

/-- The value of four hexadecimal digits, and the rest. -/
def hex4? : List Char → Option (Nat × List Char)
  | a :: b :: c :: d :: r => do
    return (((← hexValue? a) * 16 + (← hexValue? b)) * 256 + (← hexValue? c) * 16 + (← hexValue? d), r)
  | _ => none

/-- The character of a `u` escape, and the rest; a pair of surrogates is one character. -/
def unicodeEscape? (cs : List Char) : Option (Char × List Char) := do
  let (n, r) ← hex4? cs
  if n < 0xD800 ∨ 0xE000 ≤ n then return (Char.ofNat n, r)
  else if n < 0xDC00 then
    match r with
    | '\\' :: 'u' :: r =>
      let (m, r) ← hex4? r
      if 0xDC00 ≤ m ∧ m < 0xE000 then
        return (Char.ofNat (0x10000 + (n - 0xD800) * 0x400 + (m - 0xDC00)), r)
      else none
    | _ => none
  else none

/-- The character of an escape after its backslash, and the rest. -/
def escape? : List Char → Option (Char × List Char)
  | [] => none
  | c :: r =>
    if c = '\x22' ∨ c = '\\' ∨ c = '/' then some (c, r)
    else if c = 'b' then some ('\x08', r)
    else if c = 'f' then some ('\x0c', r)
    else if c = 'n' then some ('\n', r)
    else if c = 'r' then some ('\r', r)
    else if c = 't' then some ('\t', r)
    else if c = 'u' then unicodeEscape? r
    else none

/-- The characters of a string up to its closing quote, and the rest. -/
def stringBody? : (fuel : Nat) → List Char → Option (List Char × List Char)
  | 0, _ => none
  | _, [] => none
  | fuel + 1, c :: r =>
    if c = '\x22' then some ([], r)
    else if c = '\\' then do
      let (e, r) ← escape? r
      let (s, r) ← stringBody? fuel r
      return (e :: s, r)
    else if c.toNat < 32 then none
    else do
      let (s, r) ← stringBody? fuel r
      return (c :: s, r)

/-! ## Numbers -/

/-- The digits after a point, and the rest; at least one must stand there. -/
def fraction? : List Char → Option (List Char × List Char)
  | '.' :: r =>
    let ds := r.takeWhile Char.isDigit
    if ds.isEmpty then none else some (ds, r.dropWhile Char.isDigit)
  | r => some ([], r)

/-- The exponent, if there is one, and the rest. -/
def exponent? : List Char → Option (Option Int × List Char)
  | c :: r =>
    if c = 'e' ∨ c = 'E' then
      let (minus, r) := match r with
        | '-' :: r => (true, r)
        | '+' :: r => (false, r)
        | r => (false, r)
      let ds := r.takeWhile Char.isDigit
      if ds.isEmpty then none
      else
        let e : Int := Nat.ofDigitChars 10 ds 0
        some (some (if minus then -e else e), r.dropWhile Char.isDigit)
    else some (none, c :: r)
  | [] => some (none, [])

/-- A number after its sign, and the rest. -/
def number? (negative : Bool) (cs : List Char) : Option (Json × List Char) := do
  let ds := cs.takeWhile Char.isDigit
  if ds.isEmpty ∨ (ds.head? = some '0' ∧ ds.length ≠ 1) then none
  else
    let (fraction, r) ← fraction? (cs.dropWhile Char.isDigit)
    let (exponent, r) ← exponent? r
    if fraction.isEmpty ∧ exponent.isNone then
      let n : Int := Nat.ofDigitChars 10 ds 0
      return (.int (if negative then -n else n), r)
    else
      let d : Decimal :=
        ⟨negative, Nat.ofDigitChars 10 (ds ++ fraction) 0, exponent.getD 0 - fraction.length⟩
      return (.real (.finite d), r)

/-! ## Values -/

/-- The rest of a text that starts with a word. -/
def word? (w : String) (cs : List Char) : Option (List Char) :=
  if w.toList.isPrefixOf cs then some (cs.drop w.length) else none

/-- A value that is neither list nor object nor string, and the rest. -/
def scalar? (cs : List Char) : Option (Json × List Char) :=
  match cs with
  | 'n' :: _ => (word? "null" cs).map fun r => (.null, r)
  | 't' :: _ => (word? "true" cs).map fun r => (.bool true, r)
  | 'f' :: _ => (word? "false" cs).map fun r => (.bool false, r)
  | 'N' :: _ => (word? "NaN" cs).map fun r => (.real .notANumber, r)
  | 'I' :: _ => (word? "Infinity" cs).map fun r => (.real (.infinite false), r)
  | '-' :: 'I' :: r => (word? "Infinity" ('I' :: r)).map fun r => (.real (.infinite true), r)
  | '-' :: r => number? true r
  | r => number? false r

/-- A name and the colon after it, and the rest. -/
def name? (fuel : Nat) (cs : List Char) : Option (String × List Char) :=
  match skipSpace cs with
  | '\x22' :: r => do
    let (s, r) ← stringBody? fuel r
    match skipSpace r with
    | ':' :: r => some (String.ofList s, r)
    | _ => none
  | _ => none

mutual

/-- A value and the rest. -/
def value? (depth fuel : Nat) (cs : List Char) : Option (Json × List Char) :=
  match depth, fuel, skipSpace cs with
  | _, 0, _ => none
  | _, fuel + 1, '\x22' :: r => do
    let (s, r) ← stringBody? fuel r
    return (.text (String.ofList s), r)
  | depth, fuel + 1, '[' :: r =>
    match depth, skipSpace r with
    | 0, _ => none
    | _, ']' :: r => some (.list [], r)
    | depth + 1, r => do
      let (items, r) ← items? depth fuel r
      return (.list items, r)
  | depth, fuel + 1, '\x7b' :: r =>
    match depth, skipSpace r with
    | 0, _ => none
    | _, '\x7d' :: r => some (.object [], r)
    | depth + 1, r => do
      let (members, r) ← members? depth fuel r
      return (.object members, r)
  | _, _ + 1, r => scalar? r

/-- The items of a list up to its closing bracket, and the rest. -/
def items? (depth fuel : Nat) (cs : List Char) : Option (List Json × List Char) :=
  match fuel with
  | 0 => none
  | fuel + 1 => do
    let (v, r) ← value? depth fuel cs
    match skipSpace r with
    | ',' :: r =>
      let (vs, r) ← items? depth fuel r
      return (v :: vs, r)
    | ']' :: r => return ([v], r)
    | _ => none

/-- The members of an object up to its closing brace, and the rest. -/
def members? (depth fuel : Nat) (cs : List Char) : Option (List (String × Json) × List Char) :=
  match fuel with
  | 0 => none
  | fuel + 1 => do
    let (k, r) ← name? fuel cs
    let (v, r) ← value? depth fuel r
    match skipSpace r with
    | ',' :: r =>
      let (ms, r) ← members? depth fuel r
      return ((k, v) :: ms, r)
    | '\x7d' :: r => return ([(k, v)], r)
    | _ => none

end

/-- Reads a text that holds one value nested at most `depth` deep. -/
def ofChars? (depth : Nat) (cs : List Char) : Option Json := do
  let (v, r) ← value? depth (2 * cs.length + 1) cs
  if skipSpace r = [] then some v else none

/-- Nesting that documents may have. -/
def maxDepth : Nat := 200

/-- Reads a text. -/
def ofText? (s : String) : Option Json := ofChars? maxDepth s.toList

end WeightedMarket.Json
