/-
  Decimal numerals, read from text.

  A numeral is a sign, digits with at most one point among them, and an optional power of ten;
  or one of the words for infinity and for a value that is no number, in any case, the latter
  possibly followed by a diagnostic number.  Blanks around it are ignored, and so are underscores
  wherever they stand; the digits of any script count as digits.

  Numerals whose power of ten lies outside ±10¹⁸ or so are refused although their form is right.
-/
import WeightedMarket.Decimal
import WeightedMarket.Text.Blank

namespace WeightedMarket

/-- What a numeral stands for. -/
inductive Numeral where
  | finite (value : Decimal)
  | infinite (negative : Bool)
  /-- No number; `signalling` ones are those written with an `s`. -/
  | notANumber (negative signalling : Bool) (diagnostic : Nat)
  deriving DecidableEq, Repr

/-- Why a text is no numeral. -/
inductive NumeralFault where
  /-- It does not have the form of one. -/
  | form
  /-- Its power of ten is out of reach. -/
  | exponent
  deriving DecidableEq, Repr

namespace Numeral

/-- The largest adjusted exponent of a numeral. -/
def maxAdjusted : Int := 999999999999999999

/-- The smallest exponent of a numeral. -/
def minExponent : Int := -1999999999999999997

/-- Whether the value is within reach; a zero counts as its exponent says. -/
def inReach (d : Decimal) : Bool := decide (minExponent ≤ d.exponent) && decide (d.adjusted ≤ maxAdjusted)

/-- The value of a run of ASCII digits. -/
def valueOf (ds : List Char) : Nat := Nat.ofDigitChars 10 ds 0

/-- A signed run of digits that ends the text: the exponent after its `e`. -/
def exponent? (cs : List Char) : Option Int :=
  let (minus, ds) := match cs with
    | '-' :: r => (true, r)
    | '+' :: r => (false, r)
    | r => (false, r)
  if ds.isEmpty || !ds.all Char.isDigit then none
  else some (if minus then -(valueOf ds : Int) else valueOf ds)

/-- Digits with an optional point and an optional exponent. -/
def number? (negative : Bool) (cs : List Char) : Except NumeralFault Numeral :=
  let whole := cs.takeWhile Char.isDigit
  let rest := cs.dropWhile Char.isDigit
  let (fraction, rest) := match rest with
    | '.' :: r => (r.takeWhile Char.isDigit, r.dropWhile Char.isDigit)
    | r => ([], r)
  if (whole ++ fraction).isEmpty then .error .form
  else
    let power := match rest with
      | [] => some 0
      | c :: r => if c = 'e' ∨ c = 'E' then exponent? r else none
    match power with
    | none => .error .form
    | some e =>
      let d : Decimal := ⟨negative, valueOf (whole ++ fraction), e - fraction.length⟩
      if inReach d then .ok (.finite d) else .error .exponent

/-- The words, after the sign and in lower case. -/
def word? (negative : Bool) (cs : List Char) : Option Numeral :=
  let diagnostic (signalling : Bool) (ds : List Char) : Option Numeral :=
    if ds.all Char.isDigit then some (.notANumber negative signalling (valueOf ds)) else none
  match cs with
  | 'i' :: 'n' :: 'f' :: r =>
    if r = [] ∨ r = "inity".toList then some (.infinite negative) else none
  | 'n' :: 'a' :: 'n' :: r => diagnostic false r
  | 's' :: 'n' :: 'a' :: 'n' :: r => diagnostic true r
  | _ => none

/-- A numeral after its sign. -/
def unsigned (negative : Bool) (cs : List Char) : Except NumeralFault Numeral :=
  match word? negative (cs.map Char.toLower) with
  | some n => .ok n
  | none => number? negative cs

/-- The text of a numeral without blanks and underscores, its digits in ASCII. -/
def normalized (cs : List Char) : List Char :=
  ((Text.trim Text.isBlank cs).filter (· != '_')).map Text.asciiDigit

/-- Reads a numeral from characters. -/
def ofChars (cs : List Char) : Except NumeralFault Numeral :=
  match normalized cs with
  | '-' :: r => unsigned true r
  | '+' :: r => unsigned false r
  | r => unsigned false r

/-- Reads a numeral. -/
def ofText (s : String) : Except NumeralFault Numeral := ofChars s.toList

/-- The canonical text of a numeral. -/
def text : Numeral → String
  | .finite d => String.ofList d.scientific
  | .infinite negative => if negative then "-Infinity" else "Infinity"
  | .notANumber negative signalling diagnostic =>
    String.ofList <| (if negative then ['-'] else []) ++ (if signalling then ['s'] else []) ++
      "NaN".toList ++ (if diagnostic = 0 then [] else digitsOf diagnostic)

example : (ofText " 1_0.50e1 ").toOption = some (.finite ⟨false, 1050, -1⟩) := by decide
example : (ofText "-_sNaN007").toOption = some (.notANumber true true 7) := by decide
example : (ofText "1e5.").toOption = none := by decide

end Numeral

end WeightedMarket
