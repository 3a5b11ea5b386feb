/-
  Coins read from text.

  The form is: an amount (an optional minus sign, ASCII digits, optionally a point and further
  digits), a denomination (an ASCII letter, then at most 127 letters, digits or signs out of
  `/ : . _ -`), and blanks anywhere but inside these two.  No character can belong to both sides
  of the border, so the division into amount and denomination is unique.
-/
import WeightedMarket.Fixed.Reader

namespace WeightedMarket.Coin

/-- Characters of a denomination after its first letter. -/
def isDenomChar (c : Char) : Bool :=
  c.isAlphanum || c == '/' || c == ':' || c == '.' || c == '_' || c == '-'

/-- Whether characters form a denomination. -/
def isDenom : List Char → Bool
  | [] => false
  | c :: r => c.isAlpha && r.all isDenomChar && decide (r.length ≤ 127)

/-- The point and the digits after it, if there are any, and the rest. -/
def fraction (cs : List Char) : List Char × List Char :=
  match cs with
  | '.' :: r =>
    let ds := r.takeWhile Char.isDigit
    if ds.isEmpty then ([], cs) else ('.' :: ds, r.dropWhile Char.isDigit)
  | cs => ([], cs)

/-- An amount without its sign, and the rest. -/
def magnitude? (cs : List Char) : Option (List Char × List Char) :=
  let ds := cs.takeWhile Char.isDigit
  if ds.isEmpty then none
  else
    let (decimals, rest) := fraction (cs.dropWhile Char.isDigit)
    some (ds ++ decimals, rest)

/-- The characters of the amount and of the denomination. -/
def split? (cs : List Char) : Option (List Char × List Char) := do
  let cs := Text.trim Text.isBlank cs
  let (sign, cs) := match cs with
    | '-' :: r => (['-'], r)
    | r => ([], r)
  let (amount, rest) ← magnitude? cs
  let denom := rest.dropWhile Text.isBlank
  if isDenom denom then some (sign ++ amount, denom) else none

/-- Reads a coin. -/
def ofText (s : String) : Except Failure Coin :=
  match split? s.toList with
  | none => refuse (.badCoin s)
  | some (amount, denom) =>
    (Fixed.ofText (String.ofList amount)).map fun a => ⟨String.ofList denom, a⟩

example : split? " -1.5 e3a ".toList = some ("-1.5".toList, "e3a".toList) := by decide
example : split? "1.5.5a".toList = none := by decide

end WeightedMarket.Coin
