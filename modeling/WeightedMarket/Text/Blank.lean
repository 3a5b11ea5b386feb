/-
  Blank characters, and texts without the blanks around them.

  A character is blank if Unicode gives it the white-space property, or if it is one of the four
  ASCII separators (28 to 31), which fields of old record formats put between their parts.
-/

namespace WeightedMarket.Text

/-- The blank characters. -/
def isBlank (c : Char) : Bool :=
  let n := c.toNat
  (decide (9 ≤ n) && decide (n ≤ 13)) || (decide (28 ≤ n) && decide (n ≤ 32)) ||
    n == 0x85 || n == 0xA0 || n == 0x1680 || (decide (0x2000 ≤ n) && decide (n ≤ 0x200A)) ||
    n == 0x2028 || n == 0x2029 || n == 0x202F || n == 0x205F || n == 0x3000

/-- Drops the leading and the trailing characters that satisfy `p`. -/
def trim (p : Char → Bool) (cs : List Char) : List Char :=
  ((cs.dropWhile p).reverse.dropWhile p).reverse

/-- Every white-space character of ASCII is blank. -/
theorem isBlank_of_isWhitespace {c : Char} (h : c.isWhitespace = true) : isBlank c = true := by
  simp only [Char.isWhitespace, Bool.or_eq_true, decide_eq_true_eq] at h
  rcases h with ((rfl | rfl) | rfl) | rfl <;> decide

/-- Nothing is trimmed from a text that neither starts nor ends with such a character. -/
theorem trim_eq_self {p : Char → Bool} {cs : List Char}
    (first : ∀ c ∈ cs.head?, p c = false) (last : ∀ c ∈ cs.getLast?, p c = false) :
    trim p cs = cs := by
  have keep : ∀ l : List Char, (∀ c ∈ l.head?, p c = false) → l.dropWhile p = l := by
    intro l hl
    cases l with
    | nil => rfl
    | cons c r => simp [hl c (by simp)]
  unfold trim
  rw [keep cs first, keep cs.reverse (by simpa [List.head?_reverse] using last), List.reverse_reverse]

example : trim isBlank " \t5 6\u3000".toList = "5 6".toList := by decide

end WeightedMarket.Text
