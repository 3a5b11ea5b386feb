/-
  Integers as text.

  People write an integer in many ways: it may stand between blanks, carry a sign, use the digits
  of any script and have single underscores between its digits: `1_000`, ` +7 `, `٣`.  Two
  underscores in a row, or one at either end, are refused, and so are a blank after the sign and an
  empty text.

  Text of an integer has at most 4300 digits.  A longer integer is never written, so a message, a
  name or an address that would show it does not come about (`IsWritable`); and a text with more
  digits is not read, zeros in front included (`readInteger`).
-/
import WeightedMarket.Decimal
import WeightedMarket.Text.Blank
import WeightedMarket.Text.Digit

namespace WeightedMarket.Text

/-- The blanks that may surround an integer: of ASCII only the blank itself and the controls
from tab to carriage return. -/
def isIntegerPadding (c : Char) : Bool :=
  if c.toNat < 127 then c.toNat == 32 || (decide (9 ≤ c.toNat) && decide (c.toNat ≤ 13))
  else isBlank c

/-- Digits after the first, each with at most one underscore before it; `seen` is the value of the
digits so far. -/
def moreDigits? (seen : Nat) : List Char → Option Nat
  | [] => some seen
  | '_' :: c :: r =>
    match digit? c with
    | some d => moreDigits? (10 * seen + d) r
    | none => none
  | c :: r =>
    match digit? c with
    | some d => moreDigits? (10 * seen + d) r
    | none => none

/-- A run of digits, underscores allowed between them. -/
def natural? : List Char → Option Nat
  | [] => none
  | c :: r =>
    match digit? c with
    | some d => moreDigits? d r
    | none => none

/-- An integer with its sign, without blanks around it. -/
def signed? : List Char → Option Int
  | '-' :: r => (natural? r).map fun n => -(n : Int)
  | '+' :: r => (natural? r).map fun n => (n : Int)
  | r => (natural? r).map fun n => (n : Int)

/-- The integer that a text of any length stands for. -/
def integer? (text : String) : Option Int :=
  signed? (trim isIntegerPadding text.toList)

example : integer? " +1_000 " = some 1000 ∧ integer? "1__0" = none ∧ integer? "-" = none := by decide

/-! ## Lengths -/

/-- The most digits that the text of an integer has. -/
def maxIntegerDigits : Nat := 4300

/-- The integer is short enough to be written. -/
def IsWritable (n : Int) : Prop := digitCount n.natAbs ≤ maxIntegerDigits

instance (n : Int) : Decidable (IsWritable n) :=
  inferInstanceAs (Decidable (digitCount n.natAbs ≤ maxIntegerDigits))

/-- Why a text is not read as an integer. -/
inductive IntegerFault where
  /-- It does not have the form of one. -/
  | form
  /-- It has too many digits. -/
  | length (digits : Nat)
  deriving DecidableEq, Repr

/-- How many digits there are among some characters. -/
def digitsIn (cs : List Char) : Nat := cs.countP fun c => (digit? c).isSome

/-- Drops the sign of an integer. -/
def withoutSign : List Char → List Char
  | '-' :: r => r
  | '+' :: r => r
  | r => r

/-- Why a text that is not an integer is not read: its first run of digits is counted before anything is
said about what follows it. -/
def faultOf (text : String) : IntegerFault :=
  let run := (withoutSign (trim isIntegerPadding text.toList)).takeWhile fun c =>
    c == '_' || (digit? c).isSome
  let digits := digitsIn run
  if (natural? run).isSome && decide (maxIntegerDigits < digits) then .length digits else .form

/-- Reads an integer that is short enough. -/
def readInteger (text : String) : Except IntegerFault Int :=
  match integer? text with
  | none => .error (faultOf text)
  | some n =>
    let digits := digitsIn text.toList
    if digits ≤ maxIntegerDigits then .ok n else .error (.length digits)

end WeightedMarket.Text
