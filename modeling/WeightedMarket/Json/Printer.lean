/-
  JSON written over several lines, or on one.

  Over several lines, every item of a list and every member of an object has a line of its own, two
  blanks further in than the line that opened it.  Strings keep every character from the blank on except the quote
  and the backslash; five control characters have letters and the others four hexadecimal digits.
-/
import WeightedMarket.Json
import WeightedMarket.Text.Quoted

namespace WeightedMarket.Json

/-- One character inside a string. -/
def escaped (c : Char) : List Char :=
  if c = '\x22' ∨ c = '\\' then ['\\', c]
  else if c = '\x08' then ['\\', 'b']
  else if c = '\x0c' then ['\\', 'f']
  else if c = '\n' then ['\\', 'n']
  else if c = '\r' then ['\\', 'r']
  else if c = '\t' then ['\\', 't']
  else if c.toNat < 32 then '\\' :: 'u' :: Text.hexDigits 4 c.toNat
  else [c]

/-- A string between quotes. -/
def stringChars (s : String) : List Char := '\x22' :: s.toList.flatMap escaped ++ ['\x22']

/-- An integer. -/
def intChars (n : Int) : List Char := (if n < 0 then ['-'] else []) ++ digitsOf n.natAbs

/-- A number that is no integer. -/
def realChars : JsonReal → List Char
  | .finite d => d.sign ++ digitsOf d.coefficient ++ 'e' :: Decimal.signedExponent d.exponent
  | .infinite negative => if negative then "-Infinity".toList else "Infinity".toList
  | .notANumber => "NaN".toList

/-- A new line, `level` steps in. -/
def newLine (level : Nat) : List Char := '\n' :: List.replicate (2 * level) ' '

/-- Items between brackets, each on a line of its own; the opening bracket stands `level` steps in. -/
def block (level : Nat) (opening closing : Char) (items : List (List Char)) : List Char :=
  if items.isEmpty then [opening, closing]
  else
    opening :: [','].intercalate (items.map (newLine (level + 1) ++ ·)) ++ newLine level ++ [closing]

mutual

/-- A value whose opening line stands `level` steps in. -/
def prettyAt (level : Nat) : Json → List Char
  | .null => "null".toList
  | .bool b => if b then "true".toList else "false".toList
  | .int n => intChars n
  | .real x => realChars x
  | .text s => stringChars s
  | .list vs => block level '[' ']' (prettyItems (level + 1) vs)
  | .object ms => block level '\x7b' '\x7d' (prettyMembers (level + 1) ms)

/-- The items of a list. -/
def prettyItems (level : Nat) : List Json → List (List Char)
  | [] => []
  | v :: vs => prettyAt level v :: prettyItems level vs

/-- The members of an object. -/
def prettyMembers (level : Nat) : List (String × Json) → List (List Char)
  | [] => []
  | (k, v) :: ms => (stringChars k ++ ':' :: ' ' :: prettyAt level v) :: prettyMembers level ms

end

/-- The text of a value over several lines. -/
def pretty (v : Json) : String := String.ofList (prettyAt 0 v)

mutual

/-- The characters of a value on one line. -/
def compactChars : Json → List Char
  | .null => "null".toList
  | .bool b => if b then "true".toList else "false".toList
  | .int n => intChars n
  | .real x => realChars x
  | .text s => stringChars s
  | .list vs => '[' :: [','].intercalate (compactItems vs) ++ [']']
  | .object ms => '\x7b' :: [','].intercalate (compactMembers ms) ++ ['\x7d']

/-- The items of a list on one line. -/
def compactItems : List Json → List (List Char)
  | [] => []
  | v :: vs => compactChars v :: compactItems vs

/-- The members of an object on one line. -/
def compactMembers : List (String × Json) → List (List Char)
  | [] => []
  | (k, v) :: ms => (stringChars k ++ ':' :: compactChars v) :: compactMembers ms

end

/-- The text of a value on one line. -/
def compact (v : Json) : String := String.ofList (compactChars v)

end WeightedMarket.Json
