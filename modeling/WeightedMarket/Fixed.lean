/-
  Fixed-point numbers with eighteen decimals.

  A number is a signed integer count of units of 10⁻¹⁸, its `raw` value, of any size.  Sums and
  differences are exact.  Products and quotients are truncated toward zero to a whole number of
  units, so the same sequence of operations gives the same digits everywhere, and no operation
  ever rounds a magnitude up.

  `quo` and `power` are total: a quotient by zero is zero.  Callers that must refuse a zero
  divisor use the checked forms of `WeightedMarket.Fixed.Checked`.
-/

namespace WeightedMarket

/-- A signed number of units of 10⁻¹⁸. -/
structure Fixed where
  raw : Int
  deriving DecidableEq, Inhabited, Repr

namespace Fixed

/-- Digits after the point. -/
def places : Nat := 18

/-- The raw value of one. -/
def scale : Int := 1000000000000000000

def zero : Fixed := ⟨0⟩

def one : Fixed := ⟨scale⟩

/-- One half: the base of the powers that undo a reduction by halves. -/
def half : Fixed := ⟨500000000000000000⟩

def ofInt (n : Int) : Fixed := ⟨n * scale⟩

instance : Add Fixed := ⟨fun a b => ⟨a.raw + b.raw⟩⟩
instance : Sub Fixed := ⟨fun a b => ⟨a.raw - b.raw⟩⟩
instance : Neg Fixed := ⟨fun a => ⟨-a.raw⟩⟩
instance : LE Fixed := ⟨fun a b => a.raw ≤ b.raw⟩
instance : LT Fixed := ⟨fun a b => a.raw < b.raw⟩
instance (a b : Fixed) : Decidable (a ≤ b) := inferInstanceAs (Decidable (a.raw ≤ b.raw))
instance (a b : Fixed) : Decidable (a < b) := inferInstanceAs (Decidable (a.raw < b.raw))

@[simp] theorem raw_add (a b : Fixed) : (a + b).raw = a.raw + b.raw := rfl
@[simp] theorem raw_sub (a b : Fixed) : (a - b).raw = a.raw - b.raw := rfl
@[simp] theorem raw_neg (a : Fixed) : (-a).raw = -a.raw := rfl
theorem le_def {a b : Fixed} : a ≤ b ↔ a.raw ≤ b.raw := Iff.rfl
theorem lt_def {a b : Fixed} : a < b ↔ a.raw < b.raw := Iff.rfl

@[ext] theorem ext {a b : Fixed} (h : a.raw = b.raw) : a = b := by
  cases a; cases b; simpa using h

/-- The magnitude. -/
def abs (a : Fixed) : Fixed := ⟨a.raw.natAbs⟩

/-- The product, truncated toward zero. -/
def mul (a b : Fixed) : Fixed := ⟨(a.raw * b.raw).tdiv scale⟩

/-- The quotient, truncated toward zero; zero if the divisor is zero. -/
def quo (a b : Fixed) : Fixed := ⟨(a.raw * scale).tdiv b.raw⟩

/-- The larger of two numbers; the first if they are equal. -/
def max (a b : Fixed) : Fixed := if a < b then b else a

/-! ## Integer powers

  Repeated squaring, truncating after every product.  `acc` holds the product of the squares
  chosen so far and `base` the square for the lowest bit of `n`. -/

def powerFrom (acc base : Fixed) (n : Nat) : Fixed :=
  if n = 0 then acc
  else
    let acc := if n % 2 = 1 then acc.mul base else acc
    if n / 2 = 0 then acc else powerFrom acc (base.mul base) (n / 2)
termination_by n

/-- The `n`-th power. -/
def power (a : Fixed) (n : Nat) : Fixed := powerFrom one a n

/-! ## Whole units of a coarser precision -/

/-- The raw value of one unit of the last of `decimals` places; `decimals` is at most eighteen. -/
def unitOf (decimals : Nat) : Int := Int.pow 10 (places - decimals)

/-- Drops the digits beyond `decimals` places, toward zero. -/
def truncateTo (a : Fixed) (decimals : Nat) : Fixed :=
  ⟨a.raw.tdiv (unitOf decimals) * unitOf decimals⟩

/-- Rounds toward positive infinity to `decimals` places. -/
def ceilTo (a : Fixed) (decimals : Nat) : Fixed :=
  ⟨-((-a.raw).fdiv (unitOf decimals)) * unitOf decimals⟩

example : (ofInt 7).quo (ofInt (-3)) = ⟨-2333333333333333333⟩ := by decide
example : (⟨-1⟩ : Fixed).truncateTo 0 = ⟨0⟩ ∧ (⟨1⟩ : Fixed).ceilTo 17 = ⟨10⟩ := by decide

end Fixed

end WeightedMarket
