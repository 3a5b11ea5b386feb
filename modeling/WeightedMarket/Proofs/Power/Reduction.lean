/-
  What reducing a base brings.

  A base is halved and then doubled, each by a loop that steps while a test holds.  Both loops are stated
  as the rounds that they run (`Ends`), as the loops of a program that knows of no bound; what each step
  keeps, the loop keeps (`Ends.keeps`), and what the steps come to is one division or one multiplication by
  a power of two.

  Halving stops below four thirds and doubling at two thirds, and neither oversteps the other's bound, so a
  positive base always comes to lie in [2/3, 4/3) (`reduce_base_bounds`).  What was halved is not doubled any
  more, not even at the edge (`Ends.eq_zero_of_halved`).  A base of at most one is never halved, and doubling
  loses nothing (`reduce_of_le_one`); a base of at least two thirds is never doubled, and halving rounds down
  once (`reduce_of_two_thirds_le`).
-/
import Mathlib.Logic.Function.Iterate
import Mathlib.Tactic.Linarith
import Mathlib.Tactic.Ring
import WeightedMarket.Fixed.Power

namespace WeightedMarket.Fixed

/-! ## Loops -/

/-- A loop that steps while a test holds ends: `n` rounds lead from `v` to `w`, and the test holds
before each of them and fails after the last. -/
structure Ends (test : Int → Prop) (step : Int → Int) (n : Nat) (v w : Int) : Prop where
  reaches : step^[n] v = w
  runs : ∀ i < n, test (step^[i] v)
  stops : ¬ test w

section

variable {test : Int → Prop} {step : Int → Int} {n : Nat} {v w : Int}

theorem Ends.nil (h : ¬ test v) : Ends test step 0 v v where
  reaches := rfl
  runs := by
    intro i hi
    exact absurd hi (Nat.not_lt_zero i)
  stops := h

/-- One round, and the rest of the loop. -/
theorem Ends.cons (htest : test v) (h : Ends test step n (step v) w) : Ends test step (n + 1) v w where
  reaches := h.reaches
  runs := by
    intro i hi
    cases i with
    | zero => exact htest
    | succ i => exact h.runs i (Nat.lt_of_succ_lt_succ hi)
  stops := h.stops

/-- **What every round keeps** holds at the end. -/
theorem Ends.keeps (h : Ends test step n v w) (P : Int → Prop) (hstep : ∀ u, test u → P u → P (step u))
    (hv : P v) : P w := by
  have hround : ∀ i ≤ n, P (step^[i] v) := by
    intro i
    induction i with
    | zero => exact fun _ => hv
    | succ i ih =>
      intro hi
      rw [Function.iterate_succ_apply']
      exact hstep _ (h.runs i hi) (ih (Nat.le_of_succ_le hi))
  rw [← h.reaches]
  exact hround n (Nat.le_refl n)

/-- A loop whose test fails at once does not run. -/
theorem Ends.eq_zero (h : Ends test step n v w) (hv : ¬ test v) : n = 0 := by
  by_contra hne
  exact hv (h.runs 0 (Nat.pos_of_ne_zero hne))

/-- A loop that runs comes from a value that passes its test. -/
theorem Ends.last (h : Ends test step (n + 1) v w) : ∃ u, test u ∧ w = step u := by
  refine ⟨step^[n] v, h.runs n (Nat.lt_succ_self n), ?_⟩
  rw [← h.reaches, Function.iterate_succ_apply']

end

/-! ## Halving -/

/-- What the reduction halves. -/
def TooLarge (v : Int) : Prop := 4 * scale ≤ 3 * v

/-- What the reduction doubles. -/
def TooSmall (v : Int) : Prop := 3 * v < 2 * scale

theorem halve_ends (v : Int) (k : Nat) :
    ∃ n w, halve v k = (w, k + n) ∧ Ends TooLarge (· / 2) n v w := by
  induction v, k using halve.induct with
  | case1 v k h ih =>
    obtain ⟨n, w, hhalve, hends⟩ := ih
    refine ⟨n + 1, w, ?_, .cons h hends⟩
    rw [halve, if_pos h, hhalve, Nat.add_assoc, Nat.add_comm 1 n]
  | case2 v k h =>
    refine ⟨0, v, ?_, .nil h⟩
    rw [halve, if_neg h, Nat.add_zero]

/-- Halving often is one division. -/
theorem iterate_halved (v : Int) (n : Nat) : (· / 2)^[n] v = v / 2 ^ n := by
  induction n with
  | zero => exact (Int.ediv_one v).symm
  | succ n ih =>
    rw [Function.iterate_succ_apply', ih, Int.ediv_ediv_of_nonneg (Int.pow_nonneg (by decide)),
      Int.pow_succ]

theorem Ends.eq_ediv {test : Int → Prop} {n : Nat} {v w : Int} (h : Ends test (· / 2) n v w) :
    w = v / 2 ^ n :=
  h.reaches.symm.trans (iterate_halved v n)

/-- What is too large is not too small when it has been halved, not even at the edge. -/
theorem not_tooSmall_half {v : Int} (h : TooLarge v) : ¬ TooSmall (v / 2) := by
  simp only [TooLarge, TooSmall, scale] at h ⊢
  omega

/-! ## Doubling -/

theorem double_ends (v : Int) (k : Nat) (hv : 0 < v) :
    ∃ n w, double v k = (w, k + n) ∧ Ends TooSmall (2 * ·) n v w := by
  induction v, k using double.induct with
  | case1 v k h ih =>
    obtain ⟨n, w, hdouble, hends⟩ := ih (by omega)
    refine ⟨n + 1, w, ?_, .cons h.2 hends⟩
    rw [double, if_pos h, hdouble, Nat.add_assoc, Nat.add_comm 1 n]
  | case2 v k h =>
    -- a positive value is left alone only because it is large enough
    have hlarge : ¬ TooSmall v := fun hsmall => h ⟨hv, hsmall⟩
    refine ⟨0, v, ?_, .nil hlarge⟩
    rw [double, if_neg h, Nat.add_zero]

/-- Doubling often is one multiplication. -/
theorem iterate_doubled (v : Int) (n : Nat) : (2 * ·)^[n] v = v * 2 ^ n := by
  induction n with
  | zero => exact (Int.mul_one v).symm
  | succ n ih =>
    rw [Function.iterate_succ_apply', ih, Int.pow_succ]
    ring

theorem Ends.eq_mul {test : Int → Prop} {n : Nat} {v w : Int} (h : Ends test (2 * ·) n v w) :
    w = v * 2 ^ n :=
  h.reaches.symm.trans (iterate_doubled v n)

/-- What is too small is not too large when it has been doubled. -/
theorem not_tooLarge_twice {v : Int} (h : TooSmall v) : ¬ TooLarge (2 * v) := by
  simp only [TooLarge, TooSmall, scale] at h ⊢
  omega

/-! ## Both -/

/-- **What was halved is not doubled.** -/
theorem Ends.eq_zero_of_halved {halvings doublings : Nat} {u v w : Int}
    (hhalved : Ends TooLarge (· / 2) halvings u v) (hdoubled : Ends TooSmall (2 * ·) doublings v w) :
    halvings = 0 ∨ doublings = 0 := by
  cases halvings with
  | zero => exact .inl rfl
  | succ n =>
    obtain ⟨t, hlarge, rfl⟩ := hhalved.last
    exact .inr (hdoubled.eq_zero (not_tooSmall_half hlarge))

variable {base : Fixed}

/-- **Both loops of the reduction end**, and what they have come to is the reduced base. -/
theorem reduce_ends (hbase : 0 < base.raw) :
    ∃ halvings doublings v w, Ends TooLarge (· / 2) halvings base.raw v ∧
      Ends TooSmall (2 * ·) doublings v w ∧ reduce base = ⟨⟨w⟩, halvings - doublings⟩ := by
  obtain ⟨i, v, hhalve, hhalved⟩ := halve_ends base.raw 0
  have hpos : 0 < v := by
    refine hhalved.keeps (0 < ·) (fun u hlarge _ => ?_) hbase
    simp only [TooLarge, scale] at hlarge
    omega
  obtain ⟨j, w, hdouble, hdoubled⟩ := double_ends v 0 hpos
  refine ⟨i, j, v, w, hhalved, hdoubled, ?_⟩
  simp only [reduce, hhalve, hdouble, Nat.zero_add]

/-- **A reduced base** lies in [2/3, 4/3). -/
theorem reduce_base_bounds (h : 0 < base.raw) :
    2 * scale ≤ 3 * (reduce base).base.raw ∧ 3 * (reduce base).base.raw < 4 * scale := by
  obtain ⟨halvings, doublings, v, w, hhalved, hdoubled, hreduce⟩ := reduce_ends h
  have hlarge : ¬ TooLarge w :=
    hdoubled.keeps (¬ TooLarge ·) (fun u hsmall _ => not_tooLarge_twice hsmall) hhalved.stops
  rw [hreduce]
  exact ⟨Int.not_lt.mp hdoubled.stops, Int.not_le.mp hlarge⟩

/-- A base of at most one is doubled, as often as the shift says. -/
theorem reduce_of_le_one (hpos : 0 < base.raw) (hle : base.raw ≤ scale) :
    ∃ j : Nat, (reduce base).shift = -(j : Int) ∧ (reduce base).base.raw = base.raw * 2 ^ j := by
  obtain ⟨halvings, doublings, v, w, hhalved, hdoubled, hreduce⟩ := reduce_ends hpos
  have hlarge : ¬ TooLarge base.raw := by
    rw [TooLarge]
    omega
  obtain rfl := hhalved.eq_zero hlarge
  have hv : v = base.raw := hhalved.eq_ediv.trans (Int.ediv_one base.raw)
  rw [hreduce]
  exact ⟨doublings, Int.zero_sub _, hv ▸ hdoubled.eq_mul⟩

/-- A base of at least two thirds is halved, as often as the shift says. -/
theorem reduce_of_two_thirds_le (h : 2 * scale ≤ 3 * base.raw) :
    ∃ j : Nat, (reduce base).shift = j ∧ (reduce base).base.raw = base.raw / 2 ^ j := by
  have hpos : 0 < base.raw := by
    simp only [scale] at h
    omega
  obtain ⟨halvings, doublings, v, w, hhalved, hdoubled, hreduce⟩ := reduce_ends hpos
  have hsmall : ¬ TooSmall v :=
    hhalved.keeps (¬ TooSmall ·) (fun u hlarge _ => not_tooSmall_half hlarge) (Int.not_lt.mpr h)
  obtain rfl := hdoubled.eq_zero hsmall
  have hw : w = v := hdoubled.eq_mul.trans (Int.mul_one v)
  rw [hreduce]
  exact ⟨halvings, Int.sub_zero _, hw ▸ hhalved.eq_ediv⟩

end WeightedMarket.Fixed
