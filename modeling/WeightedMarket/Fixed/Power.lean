/-
  Powers with fractional exponents.

  The exponent is split into its integer part, which repeated squaring handles, and a fraction.
  The fraction goes through the binomial series

      (1 + x) ^ a  =  Σ  binom(a, k) · xᵏ ,       t₀ = 1,   tₖ₊₁ = tₖ · |a - k| · |x| / (k + 1),

  whose terms are computed from magnitudes, each step truncated, while the sign of every term is
  kept apart.  Summation stops at the first term below the wanted precision.  The series is slow
  away from 1, so the base is first brought near 1 by powers of two:

      base   = r · 2 ^ j            with 2/3 ≤ r < 4/3
      base ^ f = r ^ f · (2 ^ f) ^ j     where 2 ^ f = 1 / (1/2) ^ f .

  Both series then run at a distance of at most 1/2 from 1.
-/
import WeightedMarket.Fixed.Checked

namespace WeightedMarket.Fixed

/-! ## Range reduction -/

/-- Halves a raw value until it is below four thirds, counting from `k`. -/
def halve (v : Int) (k : Nat) : Int × Nat :=
  if 4 * scale ≤ 3 * v then halve (v / 2) (k + 1) else (v, k)
termination_by v.toNat
decreasing_by simp only [scale] at *; omega

/-- Doubles a positive raw value until it is at least two thirds, counting from `k`. -/
def double (v : Int) (k : Nat) : Int × Nat :=
  if 0 < v ∧ 3 * v < 2 * scale then double (2 * v) (k + 1) else (v, k)
termination_by (scale - v).toNat
decreasing_by simp only [scale] at *; omega

/-- A base brought into [2/3, 4/3), and the power of two that was taken out of it. -/
structure Reduced where
  base : Fixed
  shift : Int
  deriving DecidableEq, Repr

/-- Brings a positive base into [2/3, 4/3).  Doubling is exact; halving rounds down. -/
def reduce (base : Fixed) : Reduced :=
  let (v, i) := halve base.raw 0
  let (w, j) := double v 0
  ⟨⟨w⟩, (i : Int) - j⟩

/-! ## The binomial series -/

/-- The default precision of the series, 10⁻⁸. -/
def powerPrecision : Fixed := ⟨10000000000⟩

/-- The default number of terms after which the series is given up. -/
def maxTerms : Int := 100000

/-- The magnitude of the term after the `k`-th, which is `term`. -/
def nextTerm (exponent x : Fixed) (k : Nat) (term : Fixed) : Fixed :=
  ((term.mul (exponent - ofInt k).abs).mul x.abs).quo (ofInt (k + 1))

/-- Whether the term after the `k`-th has the other sign: one of its two factors is negative. -/
def flips (exponent x : Fixed) (k : Nat) : Bool :=
  xor (decide (x.raw < 0)) (decide ((exponent - ofInt k).raw < 0))

/-- Adds the terms after the `k`-th, which is `term` and negative if `minus`, to `total`; at most
`left` of them.  Nothing if more are needed. -/
def sumTerms (exponent x precision : Fixed) :
    (left k : Nat) → (term total : Fixed) → (minus : Bool) → Option Fixed
  | 0, _, term, total, _ => if term < precision then some total else none
  | left + 1, k, term, total, minus =>
    if term < precision then some total
    else
      let next := nextTerm exponent x k term
      if next.raw = 0 then some total
      else
        let minus := xor minus (flips exponent x k)
        sumTerms exponent x precision left (k + 1) next (if minus then total - next else total + next) minus

/-- The power of a base between 0 and 2 with an exponent between 0 and 1, by the series. -/
def seriesPower (base exponent precision : Fixed) (limit : Int) : Except Failure Fixed :=
  if exponent.raw = 0 then .ok one
  else
    match sumTerms exponent (base - one) precision limit.toNat 0 one one false with
    | some total => .ok total
    | none => refuse (.seriesTooLong base exponent limit)

/-! ## Powers of any positive base -/

/-- The power of a positive base with an exponent between 0 and 1. -/
def fractionalPower (base exponent : Fixed) : Except Failure Fixed := do
  let reduced := reduce base
  let near ← seriesPower reduced.base exponent powerPrecision maxTerms
  if reduced.shift = 0 then return near
  let halfPower ← seriesPower half exponent powerPrecision maxTerms
  if reduced.shift < 0 then return near.mul (halfPower.power reduced.shift.natAbs)
  let twoPower ← one.divide halfPower
  return near.mul (twoPower.power reduced.shift.natAbs)

/-- The power of a positive base with an exponent that is not negative. -/
def raise (base exponent : Fixed) : Except Failure Fixed := do
  require (decide (0 < base.raw)) (.domain (.baseNotPositive base))
  require (decide (0 ≤ exponent.raw)) (.domain (.negativeExponent exponent))
  let whole := base.power (exponent.raw / scale).toNat
  let fraction : Fixed := ⟨exponent.raw % scale⟩
  if fraction.raw = 0 then return whole
  return whole.mul (← fractionalPower base fraction)

example : (reduce ⟨2666666666666666668⟩).base = ⟨666666666666666667⟩ := by decide +kernel

end WeightedMarket.Fixed
