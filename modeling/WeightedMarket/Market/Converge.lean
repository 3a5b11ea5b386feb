/-
  Raising an input until it suffices.

  Solving the invariant backwards and then forwards does not always come back to the same amount:
  the input that was computed may buy a little less than was asked for.  `converge` asks the
  forward direction; if the answer falls short it raises the input by the deficit at the current
  rate, and by ten times as much on every further attempt, always counted from the first input.
-/
import WeightedMarket.Action
import WeightedMarket.Fixed.Checked

namespace WeightedMarket

/-- The raw value of one unit of a precision.  Beyond eighteen places a unit is no whole number; a
negative precision counts in tens, hundreds and so on. -/
def unitRaw (decimals : Int) : Except Failure Int :=
  if 18 < decimals then refuse .decimalsNotWhole else .ok (Int.pow 10 (18 - decimals).toNat)

/-- The first raise: the deficit of the output, priced at the rate of the first attempt, in whole
units of the input and at least one of them. -/
def firstBump (start want out : Fixed) (decimals : Int) : Except Failure Fixed := do
  let unit : Fixed := ⟨← unitRaw decimals⟩
  let price ← ((want - out).mul start).divide (out.max unit)
  return unit.max (← price.ceil decimals)

/-- Tries `start + bump`, `start + 10 · bump` and so on, at most `left` times. -/
def raiseInput {σ : Type} (forward : Fixed → Action σ (Option Fixed)) (start want : Fixed) :
    (left : Nat) → (bump : Fixed) → Action σ (Option (Fixed × Fixed))
  | 0, _ => return none
  | left + 1, bump => do
    match ← forward (start + bump) with
    | none => return none
    | some out =>
      if want ≤ out then return some (start + bump, out)
      else raiseInput forward start want left (bump.mul (Fixed.ofInt 10))

/-- The first input tried whose output is at least `want`, with that output; nothing if the forward
direction fails on the way or `attempts` raises are not enough. -/
def converge {σ : Type} (forward : Fixed → Action σ (Option Fixed)) (start want : Fixed)
    (decimals attempts : Int) : Action σ (Option (Fixed × Fixed)) := do
  match ← forward start with
  | none => return none
  | some out =>
    if want ≤ out then return some (start, out)
    else
      let bump ← Action.decide (firstBump start want out decimals)
      raiseInput forward start want attempts.toNat bump

end WeightedMarket
