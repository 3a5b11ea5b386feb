/-
  Text from bytes, by UTF-8.

  Decoding stops at the first byte that cannot be read and says where it stands, how many bytes
  are at fault and why: a byte that starts nothing is at fault alone; a sequence broken by a wrong
  byte is at fault up to that byte; a sequence that the end of the input cuts short is at fault to
  the end.
-/
import WeightedMarket.Text.Quoted

namespace WeightedMarket.Text

/-- Why bytes are not UTF-8. -/
inductive Utf8Reason where
  | start
  | continuation
  | truncated
  deriving DecidableEq, Repr

def Utf8Reason.text : Utf8Reason → String
  | .start => "invalid start byte"
  | .continuation => "invalid continuation byte"
  | .truncated => "unexpected end of data"

/-- The first fault of a run of bytes. -/
structure Utf8Fault where
  position : Nat
  length : Nat
  byte : Nat
  reason : Utf8Reason
  deriving DecidableEq, Repr

def Utf8Fault.text (f : Utf8Fault) : String :=
  let place :=
    if f.length = 1 then s!"byte 0x{String.ofList (hexDigits 2 f.byte)} in position {f.position}"
    else s!"bytes in position {f.position}-{f.position + f.length - 1}"
  s!"'utf-8' codec can't decode {place}: {f.reason.text}"

/-- Whether a byte may continue a sequence. -/
def isTail (b : Nat) : Bool := decide (0x80 ≤ b) && decide (b ≤ 0xBF)

/-- The code point whose first byte is `a` and whose next bytes start `r`, and the number of its
bytes; or the number of bytes at fault and the reason. -/
def codePoint (a : Nat) (r : List Nat) : Except (Nat × Utf8Reason) (Nat × Nat) :=
  let second (low high b : Nat) : Bool := decide (low ≤ b) && decide (b ≤ high)
  let cutShort : Except (Nat × Utf8Reason) (Nat × Nat) := .error (r.length + 1, .truncated)
  if a < 0x80 then .ok (a, 1)
  else if a < 0xC2 ∨ 0xF4 < a then .error (1, .start)
  else if a < 0xE0 then
    match r with
    | [] => cutShort
    | b :: _ =>
      if isTail b then .ok ((a - 0xC0) * 0x40 + (b - 0x80), 2) else .error (1, .continuation)
  else if a < 0xF0 then
    let fits := second (if a = 0xE0 then 0xA0 else 0x80) (if a = 0xED then 0x9F else 0xBF)
    match r with
    | [] => cutShort
    | [b] => if fits b then cutShort else .error (1, .continuation)
    | b :: c :: _ =>
      if !fits b then .error (1, .continuation)
      else if !isTail c then .error (2, .continuation)
      else .ok (((a - 0xE0) * 0x40 + (b - 0x80)) * 0x40 + (c - 0x80), 3)
  else
    let fits := second (if a = 0xF0 then 0x90 else 0x80) (if a = 0xF4 then 0x8F else 0xBF)
    match r with
    | [] => cutShort
    | [b] => if fits b then cutShort else .error (1, .continuation)
    | [b, c] =>
      if !fits b then .error (1, .continuation)
      else if !isTail c then .error (2, .continuation)
      else cutShort
    | b :: c :: d :: _ =>
      if !fits b then .error (1, .continuation)
      else if !isTail c then .error (2, .continuation)
      else if !isTail d then .error (3, .continuation)
      else .ok ((((a - 0xF0) * 0x40 + (b - 0x80)) * 0x40 + (c - 0x80)) * 0x40 + (d - 0x80), 4)

/-- The characters of bytes that stand at `position`; `fuel` is at least their number. -/
def decodeAt (fuel position : Nat) (bytes : List Nat) : Except Utf8Fault (List Char) :=
  match fuel, bytes with
  | _, [] => .ok []
  | 0, _ => .ok []
  | fuel + 1, a :: r =>
    match codePoint a r with
    | .error (length, reason) => .error ⟨position, length, a, reason⟩
    | .ok (n, length) =>
      (decodeAt fuel (position + length) (r.drop (length - 1))).map (Char.ofNat n :: ·)

/-- The text of a run of bytes. -/
def decodeUtf8 (bytes : List Nat) : Except Utf8Fault String :=
  (decodeAt bytes.length 0 bytes).map String.ofList

example : (decodeUtf8 [0xC3, 0xA9, 0x41]).toOption = some "éA" := by decide +kernel
example : codePoint 0xE2 [0x82, 0x28] = .error (2, .continuation) := rfl

end WeightedMarket.Text
