/-
  Moments that were written are read back.

  Every part of a moment is written with a fixed number of digits, so a reader that takes that many
  digits takes exactly what was written (`number?_padded`).  The only part that may be missing is the
  microseconds: without them the seconds are followed by the offset or by nothing, neither of which a
  reader takes for a point.
-/
import WeightedMarket.Moment
import WeightedMarket.Proofs.Text.Digits

namespace WeightedMarket.Moment

open Text

/-- A padded number is read back. -/
theorem number?_padded {k n : Nat} (hk : 0 < k) (h : n < 10 ^ k) (rest : List Char) :
    number? k (Decimal.padded k n ++ rest) = some (n, rest) := by
  have hlength := Decimal.length_padded hk h
  have htake : (Decimal.padded k n ++ rest).take k = Decimal.padded k n := List.take_left' hlength
  have hdrop : (Decimal.padded k n ++ rest).drop k = rest := List.drop_left' hlength
  have hdigits : (Decimal.padded k n).all Char.isDigit = true :=
    List.all_eq_true.mpr fun c hc => Decimal.isDigit_of_mem_padded hc
  simp [number?, htake, hdrop, hlength, hdigits]

variable {m : Moment}

theorem daysIn_le (year month : Nat) : daysIn year month ≤ 31 := by
  unfold daysIn
  split
  · split
    · decide
    · decide
  · split
    · decide
    · decide

/-- A date of the calendar is read from fields of four, two and two digits. -/
theorem date?_padded (h : m.Valid) (rest : List Char) :
    date? (Decimal.padded 4 m.year ++ '-' :: (Decimal.padded 2 m.month ++ '-' ::
      (Decimal.padded 2 m.day ++ rest))) = some (m.year, m.month, m.day, rest) := by
  obtain ⟨-, hyear, -, hmonth, -, hday, -⟩ := h
  have hmonthEnd := daysIn_le m.year m.month
  rw [date?, number?_padded (by decide) (by omega)]
  simp only [Option.bind_eq_bind, Option.bind_some, skip?, beq_self_eq_true, if_true]
  rw [number?_padded (by decide) (by omega)]
  simp only [Option.bind_some, beq_self_eq_true, if_true]
  rw [number?_padded (by decide) (by omega)]
  rfl

/-- An offset is read back from its sign, hours and minutes. -/
theorem offset?_offsetChars {o : Int} (h : o.natAbs < 1440) : offset? (offsetChars o) = some (some o) := by
  have hminutes := number?_padded (k := 2) (n := o.natAbs % 60) (by decide) (by omega) []
  rw [List.append_nil] at hminutes
  have hhours := number?_padded (k := 2) (n := o.natAbs / 60) (by decide) (by omega)
    (':' :: Decimal.padded 2 (o.natAbs % 60))
  have hsixty : o.natAbs % 60 < 60 := Nat.mod_lt _ (by decide)
  rw [offsetChars, List.cons_append]
  by_cases hneg : o < 0
  · rw [if_pos hneg]
    simp only [offset?, Char.reduceEq, or_self, or_false, or_true, if_true, if_false, hhours, hminutes,
      hsixty, and_self, Option.bind_eq_bind, Option.bind_some, Option.pure_def, Option.some.injEq]
    omega
  · rw [if_neg hneg]
    simp only [offset?, Char.reduceEq, or_self, or_false, if_true, if_false, hhours, hminutes, hsixty,
      and_self, Option.bind_eq_bind, Option.bind_some, Option.pure_def, Option.some.injEq]
    omega

/-- What follows the time of day: the offset, if there is one. -/
def offsetMark (m : Moment) : List Char :=
  match m.offset with
  | none => []
  | some o => if o = 0 then ['Z'] else offsetChars o

/-- A clock's offset is read back from its mark. -/
theorem offset?_offsetMark (h : ∀ o ∈ m.offset, o.natAbs < 1440) :
    offset? m.offsetMark = some m.offset := by
  unfold offsetMark
  cases hoffset : m.offset with
  | none => rfl
  | some o =>
    dsimp only
    split
    · next hzero =>
      rw [hzero]
      rfl
    · exact offset?_offsetChars (h o hoffset)

/-- An offset is not taken for the decimals of a second, nor for more digits. -/
theorem head?_offsetMark : ∀ c ∈ m.offsetMark.head?, c = 'Z' ∨ c = '+' ∨ c = '-' := by
  unfold offsetMark
  split
  · nofun
  · split
    · rintro c ⟨⟩
      exact .inl rfl
    · rw [offsetChars, List.cons_append]
      intro c hc
      obtain rfl := Option.some.inj hc
      split
      · exact .inr (.inr rfl)
      · exact .inr (.inl rfl)

/-- Six decimals are read as millionths of a second. -/
theorem micros?_padded {n : Nat} {rest : List Char} (h : n < 1000000) (hrest : NoDigit rest) :
    micros? (Decimal.padded 6 n ++ rest) = some (n, rest) := by
  have hdigits : ∀ c ∈ Decimal.padded 6 n, c.isDigit = true := fun c hc =>
    Decimal.isDigit_of_mem_padded hc
  have hlength : (Decimal.padded 6 n).length = 6 := Decimal.length_padded (by decide) h
  have hempty : (Decimal.padded 6 n).isEmpty = false := by
    rw [List.isEmpty_eq_false_iff, ← List.length_pos_iff, hlength]
    decide
  rw [micros?, takeWhile_isDigit hdigits hrest, dropWhile_isDigit hdigits hrest,
    List.take_of_length_le (Nat.le_of_eq hlength), hempty, hlength]
  simp

/-- Seconds are read back with their millionths, which are written only if there are any. -/
theorem seconds?_padded (hsecond : m.second < 60) (hmicro : m.micro < 1000000) :
    seconds? (':' :: (Decimal.padded 2 m.second ++
      ((if m.micro = 0 then [] else '.' :: Decimal.padded 6 m.micro) ++ m.offsetMark))) =
      some (m.second, m.micro, m.offsetMark) := by
  have hhead := head?_offsetMark (m := m)
  rw [seconds?, number?_padded (by decide) (by omega)]
  simp only [Option.bind_eq_bind, Option.bind_some]
  by_cases hzero : m.micro = 0
  · rw [if_pos hzero, List.nil_append, hzero]
    cases hmark : m.offsetMark with
    | nil => rfl
    | cons c r =>
      rw [hmark] at hhead
      have hpoint : ¬ (c = '.' ∨ c = ',') := by
        rcases hhead c rfl with rfl | rfl | rfl <;> decide
      simp only [if_neg hpoint, Option.pure_def]
  · have hnoDigit : NoDigit m.offsetMark := by
      intro c hc
      rcases hhead c hc with rfl | rfl | rfl <;> rfl
    rw [if_neg hzero, List.cons_append]
    simp only [true_or, if_true]
    rw [micros?_padded hmicro hnoDigit]
    rfl

/-- **A moment** is read back from its text in a document. -/
theorem ofText?_documentChars (h : m.Valid) : ofText? (String.ofList m.documentChars) = some m := by
  obtain ⟨-, -, -, -, -, -, hhour, hminute, hsecond, hmicro, hoffset⟩ := id h
  have hchars : m.documentChars = Decimal.padded 4 m.year ++ '-' :: (Decimal.padded 2 m.month ++
      '-' :: (Decimal.padded 2 m.day ++ 'T' :: (Decimal.padded 2 m.hour ++
        ':' :: (Decimal.padded 2 m.minute ++ ':' :: (Decimal.padded 2 m.second ++
          ((if m.micro = 0 then [] else '.' :: Decimal.padded 6 m.micro) ++ m.offsetMark)))))) := by
    simp only [documentChars, clockChars, List.append_assoc, List.cons_append]
    rfl
  rw [ofText?, String.toList_ofList, hchars, ofChars?, date?_padded h]
  simp only [Option.bind_eq_bind, Option.bind_some, beq_self_eq_true, Bool.true_or, Bool.not_true,
    Bool.false_eq_true, if_false, Option.pure_def]
  rw [number?_padded (by decide) (by omega)]
  simp only [Option.bind_some, skip?, beq_self_eq_true, if_true]
  rw [number?_padded (by decide) (by omega)]
  simp only [Option.bind_some]
  rw [seconds?_padded hsecond hmicro]
  simp only [Option.bind_some]
  rw [offset?_offsetMark hoffset]
  simp only [Option.bind_some]
  exact if_pos h

end WeightedMarket.Moment
