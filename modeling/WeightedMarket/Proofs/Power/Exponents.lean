/-
  How integer powers follow their exponents.

  A power is made of the squares for the bits of its exponent, from the lowest bit to the highest, and every
  product is truncated.  So each exponent has products of its own: 2ᵏ - 1 and 2ᵏ share nothing but the
  squares themselves.

  But the square for the highest bit always comes last, and where the next exponent gains a bit, that square
  has the power for the lower bits as its other factor all the same (`power_add_two_pow`).  So neighbours
  are the products of smaller neighbours with one and the same factor (`exists_power_succ_eq`), and
  whatever such a factor keeps goes from a base and one to all neighbours (`power_succ_induction`): powers
  of a base of at most one fall with the exponent, and those of a base of at least one rise.
-/
import WeightedMarket.Fixed.Checked
import WeightedMarket.Proofs.Power.Order
import WeightedMarket.Proofs.Power.Whole

namespace WeightedMarket.Fixed

variable {base : Fixed} {n k : Nat}

/-! ## Rounds -/

/-- What the loop has at hand after `k` rounds: the base, squared `k` times. -/
def squared (base : Fixed) : Nat → Fixed
  | 0 => base
  | k + 1 => squared (base.mul base) k

theorem squared_succ (base : Fixed) (k : Nat) :
    squared base (k + 1) = (squared base k).mul (squared base k) := by
  induction k generalizing base with
  | zero => rfl
  | succ k ih => exact ih (base.mul base)

theorem powerFrom_zero (acc base : Fixed) : powerFrom acc base 0 = acc := by
  rw [powerFrom, if_pos rfl]

/-- One round of the loop. -/
theorem powerFrom_eq (acc base : Fixed) (n : Nat) :
    powerFrom acc base n =
      powerFrom (if n % 2 = 1 then acc.mul base else acc) (base.mul base) (n / 2) := by
  rw [powerFrom.eq_def acc base n]
  by_cases hzero : n = 0
  · rw [if_pos hzero, hzero, powerFrom_zero]
    rfl
  rw [if_neg hzero]
  dsimp only
  by_cases hlast : n / 2 = 0
  · rw [if_pos hlast, hlast, powerFrom_zero]
  · rw [if_neg hlast]

/-- A bit above all others is the last to be multiplied. -/
theorem powerFrom_add_two_pow (acc base : Fixed) (h : n < 2 ^ k) :
    powerFrom acc base (n + 2 ^ k) = (powerFrom acc base n).mul (squared base k) := by
  induction k generalizing acc base n with
  | zero =>
    obtain rfl : n = 0 := by omega
    rw [powerFrom_zero, powerFrom_eq]
    exact powerFrom_zero (acc.mul base) (base.mul base)
  | succ k ih =>
    -- a round sees the lowest bit of `n` in both exponents, and moves the high bit down by one
    have hbit : (n + 2 ^ (k + 1)) % 2 = n % 2 := by omega
    have hrest : (n + 2 ^ (k + 1)) / 2 = n / 2 + 2 ^ k := by omega
    rw [powerFrom_eq acc base (n + 2 ^ (k + 1)), powerFrom_eq acc base n, hbit, hrest]
    exact ih _ _ (by omega)

/-! ## Neighbouring exponents -/

theorem power_two_pow (base : Fixed) (k : Nat) : base.power (2 ^ k) = squared base k := by
  have h := powerFrom_add_two_pow (n := 0) one base (Nat.two_pow_pos k)
  rw [Nat.zero_add, powerFrom_zero, Fixed.one_mul] at h
  exact h

theorem power_one (base : Fixed) : base.power 1 = base := power_two_pow base 0

/-- **The highest bit comes last**, and also if it is carried into. -/
theorem power_add_two_pow (base : Fixed) (h : n ≤ 2 ^ k) :
    base.power (n + 2 ^ k) = (base.power n).mul (base.power (2 ^ k)) := by
  rcases Nat.lt_or_eq_of_le h with hlt | rfl
  · rw [power_two_pow]
    exact powerFrom_add_two_pow one base hlt
  · -- the bit is there already, and the next square is its product with itself
    rw [← Nat.two_mul, ← Nat.pow_succ', power_two_pow, power_two_pow, squared_succ]

/-- Neighbours are products of smaller neighbours with one factor. -/
theorem exists_power_succ_eq (base : Fixed) (hn : n ≠ 0) : ∃ r < n, ∃ k,
    base.power n = (base.power r).mul (base.power (2 ^ k)) ∧
      base.power (n + 1) = (base.power (r + 1)).mul (base.power (2 ^ k)) := by
  have hle := Nat.log2_self_le hn
  have hlt : n < 2 ^ (n.log2 + 1) := Nat.lt_log2_self
  have hpos := Nat.two_pow_pos n.log2
  -- the highest bit of `n` is split off from both, also where `n + 1` has a higher one
  refine ⟨n - 2 ^ n.log2, by omega, n.log2, ?_, ?_⟩
  · rw [← power_add_two_pow base (by omega), Nat.sub_add_cancel hle]
  · rw [← power_add_two_pow base (by omega), Nat.add_right_comm, Nat.sub_add_cancel hle]

/-- What holds of a base and of one, and is kept by a common factor, holds of neighbouring powers. -/
theorem power_succ_induction {R : Fixed → Fixed → Prop} (hbase : R base one)
    (hmul : ∀ k a b, R a b → R (a.mul (base.power (2 ^ k))) (b.mul (base.power (2 ^ k)))) (n : Nat) :
    R (base.power (n + 1)) (base.power n) := by
  induction n using Nat.strongRecOn with
  | _ n ih =>
    by_cases hzero : n = 0
    · rw [hzero, power_zero, power_one]
      exact hbase
    · obtain ⟨r, hr, k, hpower, hnext⟩ := exists_power_succ_eq base hzero
      rw [hpower, hnext]
      exact hmul k _ _ (ih r hr)

/-! ## Order -/

/-- **Powers of a base of at most one** fall with the exponent. -/
theorem power_antitone (h0 : 0 ≤ base.raw) (h1 : base.raw ≤ scale) {m : Nat} (h : m ≤ n) :
    base.power n ≤ base.power m := by
  have hnext (k : Nat) : Under (base.power (k + 1)) (base.power k) := by
    refine power_succ_induction ⟨h0, h1⟩ ?_ k
    intro i a b hab
    exact hab.mul ⟨power_nonneg h0 _, Int.le_refl _⟩
  induction h with
  | refl => exact Int.le_refl _
  | step _ ih => exact Int.le_trans (hnext _).2 ih

/-- **Powers of a base of at least one** rise with the exponent. -/
theorem power_monotone (h1 : scale ≤ base.raw) {m : Nat} (h : m ≤ n) :
    base.power m ≤ base.power n := by
  have hscale := Int.le_of_lt scale_pos
  have hnext (k : Nat) : Under (base.power k) (base.power (k + 1)) := by
    refine power_succ_induction (R := fun a b => Under b a) ⟨hscale, h1⟩ ?_ k
    intro i a b hab
    exact hab.mul ⟨power_nonneg (Int.le_trans hscale h1) _, Int.le_refl _⟩
  induction h with
  | refl => exact Int.le_refl _
  | step _ ih => exact Int.le_trans ih (hnext _).2

/-! ## Integer powers -/

/-- The checked power of a natural exponent is answered. -/
theorem powerOf_natCast (base : Fixed) (n : Nat) : base.powerOf n = .ok (base.power n) := by
  rw [powerOf, if_neg (by omega), Int.toNat_natCast]

/-- **Integer powers** of a base that is not negative are answered, are never too large, and keep the
order of their bases.  Up to one they are too small by fewer units than the exponent, and fall with it;
from one on they rise with it. -/
theorem power_close_and_ordered :
    (∀ (base : Fixed) (n : ℕ), base.powerOf n = .ok (base.power n)) ∧
    (∀ (base : Fixed) (n : ℕ), 0 ≤ base.raw → (base.power n).val ≤ base.val ^ n) ∧
    (∀ (base : Fixed) (n : ℕ), 0 ≤ base.raw → base.raw ≤ scale → 1 ≤ n →
      base.val ^ n - (n - 1) / 10 ^ 18 ≤ (base.power n).val) ∧
    (∀ (base base' : Fixed) (n : ℕ), 0 ≤ base.raw → base ≤ base' → base.power n ≤ base'.power n) ∧
    (∀ (base : Fixed) (m n : ℕ), 0 ≤ base.raw → base.raw ≤ scale → m ≤ n →
      base.power n ≤ base.power m) ∧
    (∀ (base : Fixed) (m n : ℕ), scale ≤ base.raw → m ≤ n → base.power m ≤ base.power n) := by
  refine ⟨powerOf_natCast, ?large, ?small, ?bases, ?fall, ?rise⟩
  case large =>
    intro base n h0
    exact power_le_pow (val_nonneg.mpr h0) n
  case small =>
    intro base n h0 h1 hn
    have hshort := (power_isPower (val_nonneg.mpr h0) (val_le_one.mpr h1) n).ge
    rw [ulp_eq, Nat.cast_pred hn, mul_one_div] at hshort
    exact sub_le_iff_le_add.mpr hshort
  case bases =>
    intro base base' n h0 h
    exact power_le_power h0 h n
  case fall =>
    intro base m n h0 h1 h
    exact power_antitone h0 h1 h
  case rise =>
    intro base m n h1 h
    exact power_monotone h1 h

/-- The base that is one unit short of one loses that unit in every factor, and falls where the exponent
gains a bit; nine tenths stay below it, and three halves rise. -/
theorem power_close_and_ordered_of_almost_one :
    (⟨scale - 1⟩ : Fixed).powerOf 8 = .ok ⟨scale - 8⟩ ∧
    (⟨scale - 8⟩ : Fixed).val ≤ (⟨scale - 1⟩ : Fixed).val ^ 8 ∧
    (⟨scale - 1⟩ : Fixed).val ^ 8 - ((8 : ℕ) - 1) / 10 ^ 18 ≤ (⟨scale - 8⟩ : Fixed).val ∧
    (⟨900000000000000000⟩ : Fixed).power 8 ≤ ⟨scale - 8⟩ ∧
    (⟨scale - 8⟩ : Fixed) ≤ (⟨scale - 1⟩ : Fixed).power 7 ∧
    (⟨1500000000000000000⟩ : Fixed).power 7 ≤ (⟨1500000000000000000⟩ : Fixed).power 8 := by
  obtain ⟨hanswer, hlarge, hsmall, hbases, hfall, hrise⟩ := power_close_and_ordered
  have height : (⟨scale - 1⟩ : Fixed).power 8 = ⟨scale - 8⟩ := by decide +kernel
  rw [← height]
  exact ⟨hanswer _ 8, hlarge _ 8 (by decide), hsmall _ 8 (by decide) (by decide) (by decide),
    hbases _ _ 8 (by decide) (by decide), hfall _ 7 8 (by decide) (by decide) (by decide),
    hrise _ 7 8 (by decide) (by decide)⟩

end WeightedMarket.Fixed
