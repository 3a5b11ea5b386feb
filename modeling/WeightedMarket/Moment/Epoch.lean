/-
  Moments counted from the first of January 1970, universal time.

  The count is in seconds or, where its magnitude exceeds twenty thousand million, in milliseconds.
  The date follows from the number of days by way of years that start in March, so that the day of
  a leap year is the last of its year.
-/
import WeightedMarket.Moment

namespace WeightedMarket.Moment

/-- Year, month and day of a day counted from the epoch; nothing before year one. -/
def civilDate? (days : Int) : Option (Nat × Nat × Nat) :=
  let shifted := days + 719468
  if shifted < 0 then none
  else
    let z := shifted.toNat
    let era := z / 146097
    let dayOfEra := z % 146097
    let year := (dayOfEra - dayOfEra / 1460 + dayOfEra / 36524 - dayOfEra / 146096) / 365
    let dayOfYear := dayOfEra - (365 * year + year / 4 - year / 100)
    let m := (5 * dayOfYear + 2) / 153
    let day := dayOfYear - (153 * m + 2) / 5 + 1
    let month := if m < 10 then m + 3 else m - 9
    some (year + era * 400 + (if month ≤ 2 then 1 else 0), month, day)

/-- The moment of a count. -/
def ofEpoch? (count : Int) : Option Moment := do
  let micros := if 20000000000 < count.natAbs then count * 1000 else count * 1000000
  let seconds := micros / 1000000
  let (year, month, day) ← civilDate? (seconds / 86400)
  let s := (seconds % 86400).toNat
  let m : Moment :=
    ⟨year, month, day, s / 3600, s / 60 % 60, s % 60, (micros % 1000000).toNat, some 0⟩
  if m.Valid then return m else none

example : (ofEpoch? 951782400).map text = some "2000-02-29T00:00:00+00:00" := by decide +kernel
example : (ofEpoch? (-1)).map text = some "1969-12-31T23:59:59+00:00" := by decide +kernel

end WeightedMarket.Moment
