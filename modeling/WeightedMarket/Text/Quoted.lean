/-
  Quoted texts, as messages show them.

  A text is put between single quotes, or between double quotes if it holds a single quote and no
  double one, so that most texts need no escape.  The backslash and the quote in use are escaped
  by a backslash; tab, line feed and carriage return have letters; every other character that is
  not printable is given by its code point in two, four or eight hexadecimal digits.
-/
import WeightedMarket.Text.Printable

namespace WeightedMarket.Text

/-- The lowest `width` hexadecimal digits of a number, in lower case. -/
def hexDigits (width n : Nat) : List Char :=
  (List.range width).reverse.map fun i => Nat.digitChar (n / Nat.pow 16 i % 16)

/-- One character inside quotes. -/
def quotedChar (mark c : Char) : List Char :=
  if c = mark ∨ c = '\\' then ['\\', c]
  else if c = '\t' then ['\\', 't']
  else if c = '\n' then ['\\', 'n']
  else if c = '\r' then ['\\', 'r']
  else if isPrintable c then [c]
  else if c.toNat < 0x100 then '\\' :: 'x' :: hexDigits 2 c.toNat
  else if c.toNat < 0x10000 then '\\' :: 'u' :: hexDigits 4 c.toNat
  else '\\' :: 'U' :: hexDigits 8 c.toNat

/-- The quote that a text is put between. -/
def quoteMark (cs : List Char) : Char :=
  if cs.contains '\x27' && !cs.contains '\x22' then '\x22' else '\x27'

/-- The quoted text. -/
def quoted (s : String) : String :=
  let cs := s.toList
  let mark := quoteMark cs
  String.ofList (mark :: cs.flatMap (quotedChar mark) ++ [mark])

/-- A list of quoted texts between square brackets. -/
def quotedList (ss : List String) : String :=
  "[" ++ ", ".intercalate (ss.map quoted) ++ "]"

end WeightedMarket.Text
