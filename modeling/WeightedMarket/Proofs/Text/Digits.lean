/-
  Digits that were written are read back.

  A number is written with its digits, or with zeros in front of them up to a width.  A reader takes
  digits as long as there are any, so what follows a number must not start with one (`NoDigit`); then it
  takes exactly the digits that were written, and their value is the number.
-/
import Mathlib.Algebra.Ring.Int.Defs
import Mathlib.Algebra.Ring.Nat
import Mathlib.Data.List.TakeWhile
import WeightedMarket.Decimal
import WeightedMarket.Text.Blank

namespace WeightedMarket

/-! ## Digits of a number -/

/-- A number is written in decimal digits. -/
theorem isDigit_of_mem_digitsOf {n : Nat} {c : Char} (h : c ∈ digitsOf n) : c.isDigit = true :=
  Nat.isDigit_of_mem_toDigits (by decide) (by decide) h

/-- Zeros after the digits of a number are digits, too. -/
theorem isDigit_of_mem_zeros (n k : Nat) :
    ∀ c ∈ digitsOf n ++ List.replicate k '0', c.isDigit = true := by
  intro c hc
  rcases List.mem_append.mp hc with hc | hc
  · exact isDigit_of_mem_digitsOf hc
  · rw [List.eq_of_mem_replicate hc]
    rfl

/-- A number has at least one digit. -/
theorem digitsOf_ne_nil (n : Nat) : digitsOf n ≠ [] := Nat.toDigits_ne_nil

/-- The digits of a number stand for it. -/
@[simp] theorem ofDigitChars_digitsOf (n : Nat) : Nat.ofDigitChars 10 (digitsOf n) 0 = n :=
  Nat.ofDigitChars_ten_toDigits

theorem digitCount_pos (n : Nat) : 0 < digitCount n := Nat.length_toDigits_pos

/-- A number has at most as many digits as the power of ten above it has zeros. -/
theorem digitCount_le_iff {n k : Nat} (hk : 0 < k) : digitCount n ≤ k ↔ n < 10 ^ k :=
  Nat.length_toDigits_le_iff (by decide) hk

/-- A number that is not zero is written without a zero in front. -/
theorem head?_digitsOf_ne {n : Nat} (h : n ≠ 0) : (digitsOf n).head? ≠ some '0' := by
  induction n using Nat.strongRecOn with
  | _ n ih =>
    rcases Nat.lt_or_ge n 10 with hlt | hge
    · rw [digitsOf, Nat.toDigits_of_lt_base hlt]
      intro hhead
      exact h (Nat.digitChar_eq_zero.mp (Option.some.inj hhead))
    · -- the leading digit is that of the tenth part
      have htenth : n / 10 ≠ 0 := by omega
      have hne := digitsOf_ne_nil (n / 10)
      rw [digitsOf, Nat.toDigits_of_base_le (by decide) hge, List.head?_append]
      have hrest := ih (n / 10) (by omega) htenth
      rw [digitsOf] at hrest hne
      cases hdigits : Nat.toDigits 10 (n / 10) with
      | nil => exact absurd hdigits hne
      | cons c cs =>
        rw [hdigits] at hrest
        exact hrest

/-! ## Padded numbers -/

namespace Decimal

/-- A padded number is written in decimal digits, too. -/
theorem isDigit_of_mem_padded {width n : Nat} {c : Char} (h : c ∈ padded width n) :
    c.isDigit = true := by
  rcases List.mem_append.mp h with h | h
  · rw [List.eq_of_mem_replicate h]
    rfl
  · exact isDigit_of_mem_digitsOf h

/-- A number that is not too large for its field fills the field. -/
theorem length_padded {width n : Nat} (hwidth : 0 < width) (h : n < 10 ^ width) :
    (padded width n).length = width := by
  have hcount := (digitCount_le_iff hwidth).mpr h
  rw [padded, List.length_append, List.length_replicate]
  exact Nat.sub_add_cancel hcount

/-- Padding does not change the number. -/
@[simp] theorem ofDigitChars_padded (width n : Nat) : Nat.ofDigitChars 10 (padded width n) 0 = n := by
  rw [padded, Nat.ofDigitChars_append, Nat.ofDigitChars_replicate_zero, Nat.mul_zero,
    ofDigitChars_digitsOf]

end Decimal

/-! ## Runs of characters -/

namespace Text

/-- The text does not go on with a character of a kind. -/
def Stops (p : Char → Bool) (rest : List Char) : Prop := ∀ c ∈ rest.head?, p c = false

section

variable {p : Char → Bool} {run rest : List Char}

theorem stops_nil : Stops p [] := nofun

theorem stops_cons {c : Char} (h : p c = false) (rest : List Char) : Stops p (c :: rest) := by
  intro d hd
  rw [List.head?_cons, Option.mem_some_iff] at hd
  exact hd ▸ h

theorem stops_of_forall (h : ∀ c ∈ rest, p c = false) : Stops p rest :=
  fun c hc => h c (List.mem_of_head? hc)

/-- A text that starts with a character of another kind. -/
theorem stops_run (hrun : ∀ c ∈ run, p c = false) (hne : run ≠ []) : Stops p (run ++ rest) := by
  obtain ⟨c, run, rfl⟩ := List.exists_cons_of_ne_nil hne
  exact stops_cons (hrun c List.mem_cons_self) _

/-- A run of characters is taken whole if it stops where the rest begins. -/
theorem takeWhile_of_stops (hrun : ∀ c ∈ run, p c = true) (hrest : Stops p rest) :
    (run ++ rest).takeWhile p = run := by
  rw [List.takeWhile_append_of_pos hrun]
  cases rest with
  | nil => simp
  | cons c rest => simp [hrest c (by simp)]

/-- What is left when a run is dropped is the rest. -/
theorem dropWhile_of_stops (hrun : ∀ c ∈ run, p c = true) (hrest : Stops p rest) :
    (run ++ rest).dropWhile p = rest := by
  rw [List.dropWhile_append_of_pos hrun]
  cases rest with
  | nil => rfl
  | cons c rest => simp [hrest c (by simp)]

/-- **Where a run ends** is determined by its characters and the one after it. -/
theorem run_unique {run' rest' : List Char} (h : run ++ rest = run' ++ rest')
    (hrun : ∀ c ∈ run, p c = true) (hrest : Stops p rest) (hrun' : ∀ c ∈ run', p c = true)
    (hrest' : Stops p rest') : run = run' ∧ rest = rest' := by
  have htake := congrArg (List.takeWhile p) h
  have hdrop := congrArg (List.dropWhile p) h
  rw [takeWhile_of_stops hrun hrest, takeWhile_of_stops hrun' hrest'] at htake
  rw [dropWhile_of_stops hrun hrest, dropWhile_of_stops hrun' hrest'] at hdrop
  exact ⟨htake, hdrop⟩

end

/-- The text does not go on with a digit. -/
def NoDigit (rest : List Char) : Prop := ∀ c ∈ rest.head?, c.isDigit = false

theorem noDigit_nil : NoDigit [] := stops_nil

theorem noDigit_cons {c : Char} (h : c.isDigit = false) (rest : List Char) : NoDigit (c :: rest) :=
  stops_cons h rest

section

variable {ds rest : List Char}

/-- A run of digits is taken whole if no digit follows. -/
theorem takeWhile_isDigit (hds : ∀ c ∈ ds, c.isDigit = true) (hrest : NoDigit rest) :
    (ds ++ rest).takeWhile Char.isDigit = ds :=
  takeWhile_of_stops hds hrest

/-- What is left when a run of digits is dropped is what follows it. -/
theorem dropWhile_isDigit (hds : ∀ c ∈ ds, c.isDigit = true) (hrest : NoDigit rest) :
    (ds ++ rest).dropWhile Char.isDigit = rest :=
  dropWhile_of_stops hds hrest

end

theorem toNat_of_isDigit {c : Char} (h : c.isDigit = true) : 48 ≤ c.toNat ∧ c.toNat ≤ 57 := by
  rw [Char.isDigit_iff_toNat] at h
  exact h

/-- No digit is blank. -/
theorem isBlank_of_isDigit {c : Char} (h : c.isDigit = true) : isBlank c = false := by
  obtain ⟨hle, hge⟩ := toNat_of_isDigit h
  simp only [isBlank, Bool.or_eq_false_iff, Bool.and_eq_false_iff, decide_eq_false_iff_not,
    beq_eq_false_iff_ne]
  omega

end Text

/-- The characters of an integer. -/
theorem toList_toString_int (n : Int) :
    (toString n).toList = (if n < 0 then ['-'] else []) ++ digitsOf n.natAbs := by
  cases n with
  | ofNat n =>
    show (Nat.repr n).toList = _
    rw [Nat.repr_eq_ofList_toDigits]
    simp [digitsOf]
  | negSucc n =>
    show ("-" ++ Nat.repr (n + 1)).toList = _
    rw [String.toList_append, Nat.repr_eq_ofList_toDigits]
    simp [digitsOf, Int.negSucc_lt_zero]

end WeightedMarket
