/-
  Documents read from text.

  Every field is read on its own and the problems of all of them are reported, in the order of the
  fields.  A field goes by a name of two parts, written together (`totalShares`) or with an
  underscore (`total_shares`); where both stand the first counts.  Fields of other names are
  ignored.

  Integers are liberal: integral numbers, texts and truth values stand for integers too; but they
  must be short enough to be written.  Amounts are texts or such integers only.
-/
import WeightedMarket.Document
import WeightedMarket.Decimal.Binary
import WeightedMarket.Json.Reader
import WeightedMarket.Text.Blank

namespace WeightedMarket.Document

/-- A value, or every problem on the way to it. -/
abbrev Reading (α : Type) : Type := Except (List Problem) α

namespace Reading

variable {α β : Type}

/-- The one problem of a value that is itself at fault. -/
def problem (kind : ProblemKind) : Reading α := .error [⟨[], kind⟩]

/-- The problems of a value, seen from one level further out. -/
def under (step : PathStep) (x : Reading α) : Reading α := x.mapError (·.map (·.under step))

/-- Two readings side by side: the problems of both are reported. -/
def both (x : Reading α) (y : Reading β) : Reading (α × β) :=
  match x, y with
  | .ok a, .ok b => .ok (a, b)
  | .ok _, .error q => .error q
  | .error p, .ok _ => .error p
  | .error p, .error q => .error (p ++ q)

/-- Reads every item of a list, the first of which has the position `i`. -/
def each (read : Json → Reading α) (i : Nat) : List Json → Reading (List α)
  | [] => .ok []
  | v :: vs => (both ((read v).under (.index i)) (each read (i + 1) vs)).map fun (a, as) => a :: as

/-! ## Fields -/

/-- The member of the first of some names that an object has, with its name. -/
def named? (members : List (String × Json)) (names : List String) : Option (String × Json) :=
  names.findSome? fun n => (Json.last? members n).map fun v => (n, v)

/-- Reads a field; a missing one has the default if there is one, and is a problem otherwise. -/
def field {α : Type} (members : List (String × Json)) (names : List String) (read : Json → Reading α)
    (default? : Option α) : Reading α :=
  match named? members names, default? with
  | some (n, v), _ => (read v).under (.field n)
  | none, some a => .ok a
  | none, none => (problem .missing).under (.field (names.headD ""))

/-! ## Values -/

/-- White space that may surround an integer written as a text. -/
def isSpace (c : Char) : Bool := Text.isBlank c && !(decide (28 ≤ c.toNat) && decide (c.toNat ≤ 31))

/-- ASCII digits with single underscores between them; `seen` is the value so far. -/
def digits? (seen : Nat) : List Char → Option Nat
  | [] => some seen
  | '_' :: c :: r => if c.isDigit then digits? (10 * seen + (c.toNat - 48)) r else none
  | c :: r => if c.isDigit then digits? (10 * seen + (c.toNat - 48)) r else none

/-- A text that stands for an integer: a sign, digits, and possibly a point with zeros after it. -/
def integerText? (s : String) : Option Int :=
  let cs := Text.trim isSpace s.toList
  let (minus, cs) := match cs with
    | '-' :: r => (true, r)
    | '+' :: r => (false, r)
    | r => (false, r)
  let whole := cs.takeWhile (· != '.')
  let fraction := (cs.dropWhile (· != '.')).drop 1
  match whole with
  | c :: _ =>
    if c.isDigit && fraction.all (· == '0') then
      (digits? 0 whole).map fun n => if minus then -(n : Int) else n
    else none
  | [] => none

/-- An integer of any size. -/
def anyInteger : Json → Reading Int
  | .int n => .ok n
  | .bool b => .ok (if b then 1 else 0)
  | .text s =>
    match integerText? s with
    | some n => .ok n
    | none => problem .integerText
  | .real (.finite d) =>
    match d.rounded with
    | .integer n => .ok n
    | .fraction => problem .fractional
    | .infinite => problem .notFinite
  | .real _ => problem .notFinite
  | _ => problem .notAnInteger

/-- An integer that can be written. -/
def integer (v : Json) : Reading Int := do
  let n ← anyInteger v
  if ¬ Text.IsWritable n then problem .longInteger else return n

/-- An integer that is not negative. -/
def natural (v : Json) : Reading Int := do
  let n ← integer v
  if n < 0 then problem .belowMinimum else return n

/-- A precision of at most eighteen places. -/
def precision (v : Json) : Reading Int := do
  let n ← natural v
  if 18 < n then problem .aboveMaximum else return n

/-- An amount, as its text. -/
def amount (v : Json) : Reading String :=
  match amountText v with
  | .ok s => .ok s
  | .error f => problem (.badValue f.message)

/-- A denomination. -/
def denomination : Json → Reading String
  | .text s => if s = "" then problem .emptyText else .ok s
  | _ => problem .notText

/-- A moment, or none: a text, or a count from 1970. -/
def moment : Json → Reading (Option Moment)
  | .null => .ok none
  | .text s =>
    match Moment.ofText? s with
    | some m => .ok (some m)
    | none => problem .momentText
  | .int n =>
    match Moment.ofEpoch? n with
    | some m => .ok (some m)
    | none => problem .momentText
  | _ => problem .notAMoment

/-- An active window, or none. -/
def window : Json → Reading (Option Window)
  | .null => .ok none
  | .object members =>
    (both (field members ["start"] moment (some none)) (field members ["end"] moment (some none))).map
      fun (opens, closes) => some ⟨opens, closes⟩
  | _ => problem .notAnObject

/-- An asset. -/
def asset : Json → Reading AssetDocument
  | .object members =>
    (both (field members ["denom"] denomination none)
      (both (field members ["balance"] amount none)
        (both (field members ["weight"] amount none)
          (field members ["decimals"] precision (some 18))))).map
      fun (denom, balance, weight, decimals) => ⟨denom, balance, weight, decimals⟩
  | _ => problem .notAnObject

/-- The assets: two or more. -/
def assets : Json → Reading (List AssetDocument)
  | .list vs => do
    let as ← each asset 0 vs
    if as.length < 2 then problem .tooShort else return as
  | _ => problem .notAList

/-- A document. -/
def document : Json → Reading Document
  | .object members =>
    (both (field members ["id"] natural none)
      (both (field members ["assets"] assets none)
        (both (field members ["totalShares", "total_shares"] amount none)
          (both (field members ["swapFee", "swap_fee"] amount (some "0"))
            (both (field members ["exitFee", "exit_fee"] amount (some "0"))
              (both (field members ["shareDecimals", "share_decimals"] precision (some 18))
                (field members ["activeWindow", "active_window"] window (some none)))))))).map
      fun (id, assets, totalShares, swapFee, exitFee, shareDecimals, window) =>
        ⟨id, assets, totalShares, swapFee, exitFee, shareDecimals, window⟩
  | _ => problem .notAnObject

end Reading

/-- Reads a document. -/
def ofText (s : String) : Reading Document :=
  match Json.ofText? s with
  | some v => Reading.document v
  | none => Reading.problem .unreadable

end WeightedMarket.Document
