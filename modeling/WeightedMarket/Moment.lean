/-
  Moments of the civil calendar, to the microsecond.

  A moment is a date and a time of day as a clock shows them, with the offset of that clock from
  universal time or without one.  Two moments with offsets are compared as instants; two without,
  as their clocks show them.  A moment with an offset and one without cannot be compared.

  A moment is written `2024-01-31T23:59:00`, with six decimals of the second if the microseconds
  are not zero, and with its offset if it has one.  Documents write the offset of universal time
  itself as `Z`.

  Reading is more liberal: `t`, a blank or an underscore may divide date and time; seconds may be
  missing; a comma may stand for the point; digits after the sixth decimal are dropped; the colon
  of the offset may be missing; a date alone is its midnight.
-/
import WeightedMarket.Decimal

namespace WeightedMarket

/-- A date and a time of day, and the offset of the clock in minutes east of universal time. -/
structure Moment where
  year : Nat
  month : Nat
  day : Nat
  hour : Nat
  minute : Nat
  second : Nat
  micro : Nat
  offset : Option Int
  deriving DecidableEq, Inhabited, Repr

namespace Moment

/-! ## The calendar -/

def isLeap (year : Nat) : Bool := year % 4 == 0 && (year % 100 != 0 || year % 400 == 0)

/-- The days of a month, the months counted from one. -/
def daysIn (year month : Nat) : Nat :=
  if month = 2 then (if isLeap year then 29 else 28)
  else if month = 4 ∨ month = 6 ∨ month = 9 ∨ month = 11 then 30
  else 31

/-- The days of the year before a month. -/
def daysBefore (year month : Nat) : Nat :=
  (List.range (month - 1)).foldl (fun days m => days + daysIn year (m + 1)) 0

/-- The days from the day before the first of January of year 1 to a date. -/
def ordinal (year month day : Nat) : Int :=
  let y : Int := (year : Int) - 1
  365 * y + y / 4 - y / 100 + y / 400 + daysBefore year month + day

/-- Whether the date exists and the time of day and the offset are in range. -/
def Valid (m : Moment) : Prop :=
  1 ≤ m.year ∧ m.year ≤ 9999 ∧ 1 ≤ m.month ∧ m.month ≤ 12 ∧
    1 ≤ m.day ∧ m.day ≤ daysIn m.year m.month ∧
    m.hour < 24 ∧ m.minute < 60 ∧ m.second < 60 ∧ m.micro < 1000000 ∧
    ∀ o ∈ m.offset, o.natAbs < 1440

instance (m : Moment) : Decidable m.Valid := inferInstanceAs (Decidable (_ ∧ _))

/-! ## Order -/

/-- Microseconds that the clock has counted. -/
def clockMicros (m : Moment) : Int :=
  (((ordinal m.year m.month m.day * 24 + m.hour) * 60 + m.minute) * 60 + m.second) * 1000000 + m.micro

/-- The clock's count less its offset: a point of the time line, if the clock has an offset. -/
def instant (m : Moment) : Int := m.clockMicros - m.offset.getD 0 * 60000000

/-- Whether one moment is before another; nothing if only one of them has an offset. -/
def before? (a b : Moment) : Option Bool :=
  if a.offset.isSome = b.offset.isSome then some (decide (a.instant < b.instant)) else none

/-! ## Text -/

/-- Date and time of day. -/
def clockChars (m : Moment) : List Char :=
  Decimal.padded 4 m.year ++ '-' :: Decimal.padded 2 m.month ++ '-' :: Decimal.padded 2 m.day ++
    'T' :: Decimal.padded 2 m.hour ++ ':' :: Decimal.padded 2 m.minute ++
    ':' :: Decimal.padded 2 m.second ++
    (if m.micro = 0 then [] else '.' :: Decimal.padded 6 m.micro)

/-- An offset as sign, hours and minutes. -/
def offsetChars (o : Int) : List Char :=
  (if o < 0 then '-' else '+') :: Decimal.padded 2 (o.natAbs / 60) ++ ':' :: Decimal.padded 2 (o.natAbs % 60)

/-- The text of a moment in messages. -/
def text (m : Moment) : String :=
  String.ofList (m.clockChars ++ (m.offset.map offsetChars).getD [])

/-- The characters of a moment in documents: universal time is marked by `Z`. -/
def documentChars (m : Moment) : List Char :=
  m.clockChars ++ match m.offset with
    | none => []
    | some o => if o = 0 then ['Z'] else offsetChars o

/-! ## Reading -/

/-- A number of exactly `k` digits, and the rest. -/
def number? (k : Nat) (cs : List Char) : Option (Nat × List Char) :=
  let ds := cs.take k
  if ds.length = k ∧ ds.all Char.isDigit then some (Nat.ofDigitChars 10 ds 0, cs.drop k) else none

/-- Skips one character of a kind. -/
def skip? (p : Char → Bool) : List Char → Option (List Char)
  | c :: r => if p c then some r else none
  | [] => none

/-- `YYYY-MM-DD`. -/
def date? (cs : List Char) : Option (Nat × Nat × Nat × List Char) := do
  let (year, r) ← number? 4 cs
  let r ← skip? (· == '-') r
  let (month, r) ← number? 2 r
  let r ← skip? (· == '-') r
  let (day, r) ← number? 2 r
  return (year, month, day, r)

/-- The decimals of a second as microseconds, and the rest; at least one digit must stand there. -/
def micros? (cs : List Char) : Option (Nat × List Char) :=
  let ds := (cs.takeWhile Char.isDigit).take 6
  if ds.isEmpty then none
  else some (Nat.ofDigitChars 10 ds 0 * Nat.pow 10 (6 - ds.length), cs.dropWhile Char.isDigit)

/-- The seconds, if there are any. -/
def seconds? : List Char → Option (Nat × Nat × List Char)
  | ':' :: r => do
    let (second, r) ← number? 2 r
    match r with
    | c :: r' =>
      if c = '.' ∨ c = ',' then do
        let (micro, r) ← micros? r'
        return (second, micro, r)
      else return (second, 0, r)
    | [] => return (second, 0, [])
  | r => some (0, 0, r)

/-- The offset, which ends the text. -/
def offset? : List Char → Option (Option Int)
  | [] => some none
  | c :: r =>
    if c = 'Z' ∨ c = 'z' then (if r = [] then some (some 0) else none)
    else if c = '+' ∨ c = '-' ∨ c = '−' then do
      let (hours, r) ← number? 2 r
      let (minutes, r) ← number? 2 (match r with | ':' :: r' => r' | r' => r')
      let o : Int := 60 * hours + minutes
      if r = [] ∧ minutes < 60 then return some (if c = '+' then o else -o) else none
    else none

/-- Reads a moment. -/
def ofChars? (cs : List Char) : Option Moment := do
  let (year, month, day, r) ← date? cs
  let m : Moment ← match r with
    | [] => pure ⟨year, month, day, 0, 0, 0, 0, none⟩
    | c :: r => do
      if !(c == 'T' || c == 't' || c == ' ' || c == '_') then failure
      let (hour, r) ← number? 2 r
      let r ← skip? (· == ':') r
      let (minute, r) ← number? 2 r
      let (second, micro, r) ← seconds? r
      let offset ← offset? r
      pure ⟨year, month, day, hour, minute, second, micro, offset⟩
  if m.Valid then return m else none

def ofText? (s : String) : Option Moment := ofChars? s.toList

example : (ofText? "2024-02-29t12:30,5-0130").isNone := by decide
example : (ofText? "2024-02-29T12:30:00.5-05:30").map text =
    some "2024-02-29T12:30:00.500000-05:30" := by decide +kernel

end Moment

end WeightedMarket
