/-
  The loop of repeated squaring.

  The accumulator and the square at hand are both computed powers of the base, and together they stand
  for the wanted one: the exponent of the first, and that of the second times what is left of `n`, add up
  to it.  So what holds of the base and of products holds of every integer power (`power_induction`).

  The induction is on two runs at once, for bases that are compared with each other.
-/
import WeightedMarket.Fixed

namespace WeightedMarket.Fixed

@[simp] theorem power_zero (a : Fixed) : a.power 0 = one := by
  rw [power, powerFrom, if_pos rfl]

/-- The loop invariant of two runs: their accumulators are related as `m`-th powers and their squares as
`k`-th ones. -/
theorem powerFrom_induction {P Q : Nat → Fixed → Fixed → Prop}
    (hmul : ∀ m k a a' b b', P m a a' → Q k b b' → P (m + k) (a.mul b) (a'.mul b'))
    (hsquare : ∀ k b b', Q k b b' → Q (k + k) (b.mul b) (b'.mul b'))
    {m k n : Nat} {acc acc' base base' : Fixed} (hacc : P m acc acc') (hbase : Q k base base') :
    P (m + k * n) (powerFrom acc base n) (powerFrom acc' base' n) := by
  induction n using Nat.strongRecOn generalizing m k acc acc' base base' with
  | _ n ih =>
    rw [powerFrom.eq_def acc base n, powerFrom.eq_def acc' base' n]
    by_cases hzero : n = 0
    · rw [if_pos hzero, if_pos hzero, hzero, Nat.mul_zero, Nat.add_zero]
      exact hacc
    rw [if_neg hzero, if_neg hzero]
    dsimp only
    -- the lowest bit of `n` decides in both runs whether the square at hand is part of the power
    have hbit : P (m + k * (n % 2)) (if n % 2 = 1 then acc.mul base else acc)
        (if n % 2 = 1 then acc'.mul base' else acc') := by
      rcases Nat.mod_two_eq_zero_or_one n with heven | hodd
      · rw [if_neg (by omega), if_neg (by omega), heven, Nat.mul_zero, Nat.add_zero]
        exact hacc
      · rw [if_pos hodd, if_pos hodd, hodd, Nat.mul_one]
        exact hmul m k acc acc' base base' hacc hbase
    have hsplit : m + k * n = m + k * (n % 2) + (k + k) * (n / 2) := by
      calc m + k * n = m + k * (n % 2 + 2 * (n / 2)) := by rw [Nat.mod_add_div]
        _ = m + k * (n % 2) + (k + k) * (n / 2) := by
          rw [Nat.mul_add, Nat.add_assoc, ← Nat.mul_assoc, Nat.mul_two]
    rw [hsplit]
    by_cases hhalf : n / 2 = 0
    · rw [if_pos hhalf, if_pos hhalf, hhalf, Nat.mul_zero, Nat.add_zero]
      exact hbit
    · rw [if_neg hhalf, if_neg hhalf]
      exact ih (n / 2) (by omega) hbit (hsquare k base base' hbase)

/-- **An integer power** has what its base has, if the products of the loop keep it. -/
theorem power_induction {P Q : Nat → Fixed → Prop}
    (hmul : ∀ m k a b, P m a → Q k b → P (m + k) (a.mul b))
    (hsquare : ∀ k b, Q k b → Q (k + k) (b.mul b))
    {base : Fixed} (hone : P 0 one) (hbase : Q 1 base) (n : Nat) : P n (base.power n) := by
  -- the second run is the first once more
  have h := @powerFrom_induction (fun m a _ => P m a) (fun k b _ => Q k b)
    (fun m k a _ b _ => hmul m k a b) (fun k b _ => hsquare k b) 0 1 n one one base base hone hbase
  rwa [Nat.zero_add, Nat.one_mul] at h

end WeightedMarket.Fixed
