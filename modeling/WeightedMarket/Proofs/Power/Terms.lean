/-
  The terms that the series computes.

  `termAt`, `minusAt` and `sumAt` are the magnitude of a term, its sign and the sum up to it, without
  the stopping rule.  The loop has them at hand after as many rounds (`Rounds.sumTerms_eq`), and goes on
  as long as the last term is not small and the next one does not vanish.  It answers the sum at which it
  does not go on, or gives up where it may not (`sumTerms_cases`).

  Near one, at a distance of at most a half, every term is at most half the one before it.  So what is
  left of the sum always covers the last term, and no sum is negative (`termAt_le_sumAt`).
-/
import Mathlib.Tactic.Ring
import WeightedMarket.Fixed.Power
import WeightedMarket.Proofs.Decision
import WeightedMarket.Proofs.Rounding

namespace WeightedMarket.Fixed

/-! ## Terms, signs and sums -/

/-- The magnitude of the `k`-th term. -/
def termAt (exponent x : Fixed) : Nat → Fixed
  | 0 => one
  | k + 1 => nextTerm exponent x k (termAt exponent x k)

/-- Whether the `k`-th term is negative. -/
def minusAt (exponent x : Fixed) : Nat → Bool
  | 0 => false
  | k + 1 => xor (minusAt exponent x k) (flips exponent x k)

/-- The sum of the terms up to the `k`-th. -/
def sumAt (exponent x : Fixed) : Nat → Fixed
  | 0 => one
  | k + 1 =>
    if minusAt exponent x (k + 1) then sumAt exponent x k - termAt exponent x (k + 1)
    else sumAt exponent x k + termAt exponent x (k + 1)

variable {exponent x precision : Fixed} {n : Nat}

/-! ## Rounds of the loop -/

/-- The loop runs the round after the `k`-th: the last term is not small, and the next one does not
vanish. -/
structure GoesOn (exponent x precision : Fixed) (k : Nat) : Prop where
  large : precision ≤ termAt exponent x k
  next_ne_zero : (termAt exponent x (k + 1)).raw ≠ 0

theorem small_or_zero_of_not_goesOn (h : ¬ GoesOn exponent x precision n) :
    termAt exponent x n < precision ∨ (termAt exponent x (n + 1)).raw = 0 := by
  by_contra hnot
  rw [not_or] at hnot
  exact h ⟨Int.not_lt.mp hnot.1, hnot.2⟩

/-- The loop runs `n` rounds. -/
def Rounds (exponent x precision : Fixed) (n : Nat) : Prop := ∀ k < n, GoesOn exponent x precision k

theorem rounds_zero : Rounds exponent x precision 0 := by
  intro k hk
  exact absurd hk (Nat.not_lt_zero k)

theorem rounds_succ : Rounds exponent x precision (n + 1) ↔
    Rounds exponent x precision n ∧ GoesOn exponent x precision n :=
  Nat.forall_lt_succ_right

/-- Rounds that do not go on forever have a last one. -/
theorem exists_last_round (h : ¬ Rounds exponent x precision n) :
    ∃ k < n, Rounds exponent x precision k ∧ ¬ GoesOn exponent x precision k := by
  induction n with
  | zero => exact absurd rounds_zero h
  | succ n ih =>
    by_cases hn : Rounds exponent x precision n
    · exact ⟨n, Nat.lt_succ_self n, hn, fun hlast => h (rounds_succ.mpr ⟨hn, hlast⟩)⟩
    · obtain ⟨k, hk, hlast⟩ := ih hn
      exact ⟨k, Nat.lt_succ_of_lt hk, hlast⟩

/-- **After its rounds** the loop has the last term at hand, the sum up to it and its sign. -/
theorem Rounds.sumTerms_eq (h : Rounds exponent x precision n) {limit : Nat} (hn : n ≤ limit) :
    sumTerms exponent x precision limit 0 one one false =
      sumTerms exponent x precision (limit - n) n (termAt exponent x n) (sumAt exponent x n)
        (minusAt exponent x n) := by
  induction n with
  | zero => rfl
  | succ n ih =>
    obtain ⟨hbefore, hlarge, hnext⟩ := rounds_succ.mp h
    have hnotSmall : ¬ termAt exponent x n < precision := Int.not_lt.mpr hlarge
    -- one more round of the loop is one more step of each of the three recursions
    rw [ih hbefore (by omega), show limit - n = limit - (n + 1) + 1 by omega, sumTerms, if_neg hnotSmall]
    exact if_neg hnext

/-- Its last term being small, the loop answers the sum. -/
theorem Rounds.answers_of_small (h : Rounds exponent x precision n) (hsmall : termAt exponent x n < precision)
    {limit : Nat} (hn : n ≤ limit) :
    sumTerms exponent x precision limit 0 one one false = some (sumAt exponent x n) := by
  rw [h.sumTerms_eq hn]
  cases limit - n with
  | zero => rw [sumTerms, if_pos hsmall]
  | succ left => rw [sumTerms, if_pos hsmall]

/-- **Where it does not go on** the loop answers the sum, if it may run one more round. -/
theorem Rounds.answers (h : Rounds exponent x precision n) (hlast : ¬ GoesOn exponent x precision n)
    {limit : Nat} (hn : n < limit) :
    sumTerms exponent x precision limit 0 one one false = some (sumAt exponent x n) := by
  rcases small_or_zero_of_not_goesOn hlast with hsmall | hzero
  · exact h.answers_of_small hsmall hn.le
  · rw [h.sumTerms_eq hn.le, show limit - n = limit - (n + 1) + 1 by omega, sumTerms]
    split
    · rfl
    · exact if_pos hzero

/-- The loop gives up after as many rounds as it may run, if its term is not small even so. -/
theorem Rounds.gives_up (h : Rounds exponent x precision n) (hlarge : precision ≤ termAt exponent x n) :
    sumTerms exponent x precision n 0 one one false = none := by
  rw [h.sumTerms_eq (Nat.le_refl n), Nat.sub_self, sumTerms]
  exact if_neg (Int.not_lt.mpr hlarge)

/-! ## The answer of the loop -/

/-- What a sum answered with `k` terms after the first has seen: its last term is small or the next
one vanishes, and no earlier term was small. -/
structure StopsAt (exponent x precision : Fixed) (k : Nat) : Prop where
  stops : termAt exponent x k < precision ∨ (termAt exponent x (k + 1)).raw = 0
  goesOn : ∀ i < k, precision ≤ termAt exponent x i

theorem Rounds.stopsAt (h : Rounds exponent x precision n)
    (hstops : termAt exponent x n < precision ∨ (termAt exponent x (n + 1)).raw = 0) :
    StopsAt exponent x precision n where
  stops := hstops
  goesOn := fun i hi => (h i hi).large

/-- **The loop** answers the sum that it has stopped at, or gives up. -/
theorem sumTerms_cases (exponent x precision : Fixed) (limit : Nat) :
    (Rounds exponent x precision limit ∧ precision ≤ termAt exponent x limit ∧
      sumTerms exponent x precision limit 0 one one false = none) ∨
    ∃ n, StopsAt exponent x precision n ∧
      sumTerms exponent x precision limit 0 one one false = some (sumAt exponent x n) := by
  by_cases h : Rounds exponent x precision limit
  · rcases Int.lt_or_le (termAt exponent x limit).raw precision.raw with hsmall | hlarge
    · exact .inr ⟨limit, h.stopsAt (.inl hsmall), h.answers_of_small hsmall (Nat.le_refl limit)⟩
    · exact .inl ⟨h, hlarge, h.gives_up hlarge⟩
  · obtain ⟨n, hn, hrounds, hlast⟩ := exists_last_round h
    exact .inr ⟨n, hrounds.stopsAt (small_or_zero_of_not_goesOn hlast), hrounds.answers hlast hn⟩

theorem sumTerms_eq_some {limit : Nat} {total : Fixed}
    (h : sumTerms exponent x precision limit 0 one one false = some total) :
    ∃ n, total = sumAt exponent x n ∧ StopsAt exponent x precision n := by
  rcases sumTerms_cases exponent x precision limit with ⟨_, _, hnone⟩ | ⟨n, hstops, hsome⟩
  · rw [hnone] at h
    cases h
  · rw [hsome] at h
    cases h
    exact ⟨n, rfl, hstops⟩

theorem sumTerms_eq_none {limit : Nat} (h : sumTerms exponent x precision limit 0 one one false = none) :
    Rounds exponent x precision limit ∧ precision ≤ termAt exponent x limit := by
  rcases sumTerms_cases exponent x precision limit with ⟨hrounds, hlarge, _⟩ | ⟨n, _, hsome⟩
  · exact ⟨hrounds, hlarge⟩
  · rw [hsome] at h
    cases h

/-- **The series** answers one if the exponent is zero, and else a sum of its terms. -/
theorem seriesPower_eq_ok {base total : Fixed} {limit : Int}
    (h : seriesPower base exponent precision limit = .ok total) :
    exponent.raw = 0 ∧ total = one ∨ exponent.raw ≠ 0 ∧
      ∃ n, total = sumAt exponent (base - one) n ∧ StopsAt exponent (base - one) precision n := by
  unfold seriesPower at h
  split at h
  · next hzero =>
    cases h
    exact .inl ⟨hzero, rfl⟩
  · next hne =>
    split at h
    · next hsum =>
      cases h
      exact .inr ⟨hne, sumTerms_eq_some hsum⟩
    · exact absurd h Decision.refuse_ne_ok

/-! ## One term and the next -/

/-- The distance between the exponent and a whole number. -/
def gap (exponent : Fixed) (k : Nat) : Int := |exponent.raw - k * scale|

theorem raw_abs (a : Fixed) : a.abs.raw = |a.raw| := Int.abs_eq_natAbs a.raw ▸ rfl

theorem raw_abs_sub_ofInt (exponent : Fixed) (k : Nat) :
    (exponent - ofInt k).abs.raw = exponent.gap k := raw_abs _

theorem gap_nonneg (exponent : Fixed) (k : Nat) : 0 ≤ exponent.gap k := abs_nonneg _

/-- A fraction is within `k + 1` of `k`. -/
theorem gap_le (h0 : 0 ≤ exponent.raw) (h1 : exponent.raw ≤ scale) (k : Nat) :
    exponent.gap k ≤ (k + 1) * scale := by
  have hk : 0 ≤ (k : Int) * scale := Int.mul_nonneg (Int.natCast_nonneg k) (Int.le_of_lt scale_pos)
  rw [gap, abs_le]
  constructor <;> linarith

theorem nextTerm_nonneg {t : Fixed} (ht : 0 ≤ t.raw) (k : Nat) : 0 ≤ (nextTerm exponent x k t).raw := by
  have hgap : 0 ≤ (exponent - ofInt k).abs.raw := raw_abs_sub_ofInt exponent k ▸ gap_nonneg exponent k
  have hx : 0 ≤ x.abs.raw := raw_abs x ▸ abs_nonneg x.raw
  refine raw_quo_nonneg (raw_mul_nonneg (raw_mul_nonneg ht hgap) hx) ?_
  exact Int.mul_nonneg (Int.le_of_lt (Int.natCast_succ_pos k)) (Int.le_of_lt scale_pos)

theorem termAt_nonneg (exponent x : Fixed) (k : Nat) : 0 ≤ (termAt exponent x k).raw := by
  cases k with
  | zero => exact Int.le_of_lt scale_pos
  | succ k => exact nextTerm_nonneg (termAt_nonneg exponent x k) k

/-- The exact next term is not exceeded. -/
theorem nextTerm_le {t : Fixed} (ht : 0 ≤ t.raw) (k : Nat) :
    (nextTerm exponent x k t).raw * (k + 1) * scale ^ 2 ≤ t.raw * exponent.gap k * |x.raw| := by
  have hgap : 0 ≤ (exponent - ofInt k).abs.raw := raw_abs_sub_ofInt exponent k ▸ gap_nonneg exponent k
  have hx : 0 ≤ x.abs.raw := raw_abs x ▸ abs_nonneg x.raw
  have hk : 0 < (ofInt (k + 1)).raw := Int.mul_pos (Int.natCast_succ_pos k) scale_pos
  have h1 := raw_mul_le ht hgap
  have h2 := raw_mul_le (raw_mul_nonneg ht hgap) hx
  have h3 := raw_quo_le (raw_mul_nonneg (raw_mul_nonneg ht hgap) hx) hk
  rw [raw_abs_sub_ofInt] at h1
  rw [raw_abs] at h2
  -- two products and a quotient, each of them rounded down
  have hofInt : (ofInt (k + 1)).raw = (k + 1) * scale := rfl
  rw [hofInt] at h3
  have hquo : ((nextTerm exponent x k t).raw * (k + 1)) * scale ≤
      ((t.mul (exponent - ofInt k).abs).mul x.abs).raw * scale := by
    calc (nextTerm exponent x k t).raw * (k + 1) * scale
        = (nextTerm exponent x k t).raw * ((k + 1) * scale) := by ring
      _ ≤ _ := h3
  calc (nextTerm exponent x k t).raw * (k + 1) * scale ^ 2
      = (nextTerm exponent x k t).raw * (k + 1) * scale * scale := by ring
    _ ≤ ((t.mul (exponent - ofInt k).abs).mul x.abs).raw * scale * scale :=
        Int.mul_le_mul_of_nonneg_right hquo (Int.le_of_lt scale_pos)
    _ ≤ (t.mul (exponent - ofInt k).abs).raw * |x.raw| * scale :=
        Int.mul_le_mul_of_nonneg_right h2 (Int.le_of_lt scale_pos)
    _ = (t.mul (exponent - ofInt k).abs).raw * scale * |x.raw| := by ring
    _ ≤ t.raw * exponent.gap k * |x.raw| := Int.mul_le_mul_of_nonneg_right h1 (abs_nonneg x.raw)

/-! ## Signs -/

theorem flips_zero (h0 : 0 ≤ exponent.raw) : flips exponent x 0 = decide (x.raw < 0) := by
  have h : ¬ (exponent - ofInt (0 : Nat)).raw < 0 := by
    show ¬ exponent.raw - 0 * scale < 0
    omega
  rw [flips, decide_eq_false h, Bool.xor_false]

theorem flips_succ (h1 : exponent.raw < scale) (k : Nat) :
    flips exponent x (k + 1) = !decide (x.raw < 0) := by
  have hk : 0 ≤ (k : Int) * scale := Int.mul_nonneg (Int.natCast_nonneg k) (Int.le_of_lt scale_pos)
  have h : (exponent - ofInt (k + 1 : Nat)).raw < 0 := by
    show exponent.raw - (k + 1 : Nat) * scale < 0
    push_cast
    linarith
  rw [flips, decide_eq_true h, Bool.xor_true]

/-- Below one all terms after the first are negative. -/
theorem minusAt_below (h0 : 0 ≤ exponent.raw) (h1 : exponent.raw < scale) (hx : x.raw < 0) (k : Nat) :
    minusAt exponent x (k + 1) = true := by
  induction k with
  | zero => rw [minusAt, minusAt, flips_zero h0, decide_eq_true hx, Bool.false_xor]
  | succ k ih => rw [minusAt, ih, flips_succ h1, decide_eq_true hx, Bool.not_true, Bool.xor_false]

/-- Above one they alternate, the first of them positive. -/
theorem minusAt_above (h0 : 0 ≤ exponent.raw) (h1 : exponent.raw < scale) (hx : 0 ≤ x.raw) (k : Nat) :
    minusAt exponent x (k + 1) = decide (k % 2 = 1) := by
  have hneg : ¬ x.raw < 0 := Int.not_lt.mpr hx
  induction k with
  | zero => rw [minusAt, minusAt, flips_zero h0, decide_eq_false hneg, Bool.false_xor]; rfl
  | succ k ih =>
    rw [minusAt, ih, flips_succ h1, decide_eq_false hneg, Bool.not_false, Bool.xor_true]
    rcases Nat.mod_two_eq_zero_or_one k with heven | hodd
    · rw [heven, show (k + 1) % 2 = 1 by omega]
      rfl
    · rw [hodd, show (k + 1) % 2 = 0 by omega]
      rfl

/-! ## Distances -/

/-- Terms grow with the distance from one. -/
theorem termAt_le_termAt (exponent : Fixed) {y : Fixed} (h : |x.raw| ≤ |y.raw|) (k : Nat) :
    (termAt exponent x k).raw ≤ (termAt exponent y k).raw := by
  induction k with
  | zero => exact Int.le_refl _
  | succ k ih =>
    have hx := termAt_nonneg exponent x k
    have hgap : 0 ≤ (exponent - ofInt k).abs.raw := raw_abs_sub_ofInt exponent k ▸ gap_nonneg exponent k
    have hxabs : 0 ≤ x.abs.raw := raw_abs x ▸ abs_nonneg x.raw
    refine raw_quo_le_raw_quo (Int.mul_pos (Int.natCast_succ_pos k) scale_pos) ?_
    refine raw_mul_le_raw_mul (raw_mul_nonneg hx hgap) hxabs ?_ ?_
    · exact raw_mul_le_raw_mul hx hgap ih (Int.le_refl _)
    · rw [raw_abs, raw_abs]
      exact h

/-- A base farther from one runs no fewer rounds. -/
theorem Rounds.of_abs_le {y : Fixed} (h : Rounds exponent x precision n) (hxy : |x.raw| ≤ |y.raw|) :
    Rounds exponent y precision n := by
  intro k hk
  constructor
  · exact Int.le_trans (h k hk).large (termAt_le_termAt exponent hxy k)
  · intro hzero
    have hle := termAt_le_termAt exponent hxy (k + 1)
    have hnonneg := termAt_nonneg exponent x (k + 1)
    exact (h k hk).next_ne_zero (by omega)

section

variable (h0 : 0 ≤ exponent.raw) (h1 : exponent.raw ≤ scale) {c : Int} (hc : 0 ≤ c)
  (hx : c * |x.raw| ≤ scale)

include h0 h1 hc hx

/-- At a distance of at most a `c`-th part from one, every term is at most a `c`-th part of the one
before it. -/
theorem termAt_shrinks (k : Nat) : c * (termAt exponent x (k + 1)).raw ≤ (termAt exponent x k).raw := by
  have ht := termAt_nonneg exponent x k
  have hpos : 0 < ((k : Int) + 1) * scale ^ 2 := Int.mul_pos (Int.natCast_succ_pos k) (by decide)
  refine Int.le_of_mul_le_mul_right ?_ hpos
  calc c * (termAt exponent x (k + 1)).raw * ((k + 1) * scale ^ 2)
      = c * ((termAt exponent x (k + 1)).raw * (k + 1) * scale ^ 2) := by ring
    _ ≤ c * ((termAt exponent x k).raw * exponent.gap k * |x.raw|) :=
        Int.mul_le_mul_of_nonneg_left (nextTerm_le ht k) hc
    _ = (termAt exponent x k).raw * exponent.gap k * (c * |x.raw|) := by ring
    _ ≤ (termAt exponent x k).raw * ((k + 1) * scale) * scale :=
        Int.mul_le_mul (Int.mul_le_mul_of_nonneg_left (gap_le h0 h1 k) ht) hx
          (Int.mul_nonneg hc (abs_nonneg x.raw))
          (Int.mul_nonneg ht (Int.mul_nonneg (Int.le_of_lt (Int.natCast_succ_pos k))
            (Int.le_of_lt scale_pos)))
    _ = (termAt exponent x k).raw * ((k + 1) * scale ^ 2) := by ring

theorem pow_mul_termAt_le (k : Nat) : c ^ k * (termAt exponent x k).raw ≤ scale := by
  induction k with
  | zero =>
    rw [Int.pow_zero, Int.one_mul]
    exact Int.le_refl _
  | succ k ih =>
    have hpow : 0 ≤ c ^ k := Int.pow_nonneg hc
    have hstep := Int.mul_le_mul_of_nonneg_left (termAt_shrinks h0 h1 hc hx k) hpow
    calc c ^ (k + 1) * (termAt exponent x (k + 1)).raw
        = c ^ k * (c * (termAt exponent x (k + 1)).raw) := by ring
      _ ≤ c ^ k * (termAt exponent x k).raw := hstep
      _ ≤ scale := ih

end

/-! ## Near one -/

/-- Within a third of one is within a half. -/
theorem two_mul_abs_le (h : 3 * |x.raw| ≤ scale) : 2 * |x.raw| ≤ scale := by
  linarith [abs_nonneg x.raw]

/-- Within a half of one **no sum is negative**: it is at least its last term. -/
theorem termAt_le_sumAt (h0 : 0 ≤ exponent.raw) (h1 : exponent.raw ≤ scale) (hx : 2 * |x.raw| ≤ scale)
    (k : Nat) : (termAt exponent x k).raw ≤ (sumAt exponent x k).raw := by
  induction k with
  | zero => exact Int.le_refl _
  | succ k ih =>
    have hhalf := termAt_shrinks h0 h1 (by decide) hx k
    have hnext := termAt_nonneg exponent x (k + 1)
    rw [sumAt]
    split
    · rw [raw_sub]; omega
    · rw [raw_add]; omega

/-- Within a third of one no sum exceeds three halves. -/
theorem two_mul_sumAt_le (h0 : 0 ≤ exponent.raw) (h1 : exponent.raw ≤ scale) (hx : 3 * |x.raw| ≤ scale)
    (k : Nat) : 2 * (sumAt exponent x k).raw + (termAt exponent x k).raw ≤ 3 * scale := by
  induction k with
  | zero => exact Int.le_of_eq (by rfl)
  | succ k ih =>
    have hthird := termAt_shrinks h0 h1 (by decide) hx k
    have hnext := termAt_nonneg exponent x (k + 1)
    rw [sumAt]
    split
    · rw [raw_sub]; omega
    · rw [raw_add]; omega

/-- The series of a base near one is never negative. -/
theorem seriesPower_nonneg {base total : Fixed} {limit : Int} (h0 : 0 ≤ exponent.raw)
    (h1 : exponent.raw ≤ scale) (hx : 2 * |(base - one).raw| ≤ scale)
    (h : seriesPower base exponent precision limit = .ok total) : 0 ≤ total.raw := by
  rcases seriesPower_eq_ok h with ⟨_, rfl⟩ | ⟨_, n, rfl, _⟩
  · exact Int.le_of_lt scale_pos
  · exact Int.le_trans (termAt_nonneg _ _ n) (termAt_le_sumAt h0 h1 hx n)

/-! ## Vanishing -/

/-- A term that has vanished stays so. -/
theorem termAt_eq_zero_of_le {i k : Nat} (h : (termAt exponent x i).raw = 0) (hik : i ≤ k) :
    (termAt exponent x k).raw = 0 := by
  induction hik with
  | refl => exact h
  | step _ ih =>
    have hzero : termAt exponent x _ = zero := Fixed.ext ih
    rw [termAt, hzero]
    simp [nextTerm, mul, quo, zero]

/-- At one itself all terms after the first vanish. -/
theorem termAt_succ_of_one (exponent : Fixed) (hx : x.raw = 0) (k : Nat) : (termAt exponent x (k + 1)).raw = 0 := by
  have hfirst : (termAt exponent x 1).raw = 0 := by
    simp [termAt, nextTerm, mul, quo, abs, hx]
  exact termAt_eq_zero_of_le hfirst (Nat.succ_pos k)

/-- Every sum for one itself is one. -/
theorem sumAt_of_one (hx : x.raw = 0) (k : Nat) : sumAt exponent x k = one := by
  induction k with
  | zero => rfl
  | succ k ih =>
    have hzero := termAt_succ_of_one exponent hx k
    rw [sumAt, ih]
    split
    · exact Fixed.ext (by rw [raw_sub, hzero, Int.sub_zero])
    · exact Fixed.ext (by rw [raw_add, hzero, Int.add_zero])

/-! ## Stopping -/

/-- Terms that shrink to less than the precision within `m` steps are not added for longer than that. -/
theorem StopsAt.le_of_shrinks {c : Int} {m k : Nat} (h0 : 0 ≤ exponent.raw) (h1 : exponent.raw ≤ scale)
    (hc : 0 ≤ c) (hx : c * |x.raw| ≤ scale) (hm : scale < c ^ m * precision.raw)
    (h : StopsAt exponent x precision k) : k ≤ m := by
  by_contra hlt
  have hlarge : precision.raw ≤ (termAt exponent x m).raw := h.goesOn m (by omega)
  have hsmall := pow_mul_termAt_le h0 h1 hc hx m
  have hpow : 0 ≤ c ^ m := Int.pow_nonneg hc
  have hscaled := Int.mul_le_mul_of_nonneg_left hlarge hpow
  omega

/-- Within a third of one at most seventeen terms are added. -/
theorem StopsAt.le_seventeen {k : Nat} (h0 : 0 ≤ exponent.raw) (h1 : exponent.raw ≤ scale)
    (hx : 3 * |x.raw| ≤ scale) (h : StopsAt exponent x powerPrecision k) : k ≤ 17 :=
  h.le_of_shrinks h0 h1 (by decide) hx (by decide)

/-- Within a half of one at most twenty-seven terms are added. -/
theorem StopsAt.le_twentySeven {k : Nat} (h0 : 0 ≤ exponent.raw) (h1 : exponent.raw ≤ scale)
    (hx : 2 * |x.raw| ≤ scale) (h : StopsAt exponent x powerPrecision k) : k ≤ 27 :=
  h.le_of_shrinks h0 h1 (by decide) hx (by decide)

/-- **The series of one half does not stop first**, unless the other has nothing left to add. -/
theorem StopsAt.le_of_abs_le {y : Fixed} {k n : Nat} (hx : |x.raw| ≤ |y.raw|)
    (hnear : StopsAt exponent x precision n) (hfar : StopsAt exponent y precision k)
    (hnext : (termAt exponent x (n + 1)).raw ≠ 0) : n ≤ k := by
  by_contra hlt
  -- where the series of one half would stop, the other one has gone on
  have hlarge := hnear.goesOn k (by omega)
  have hle := termAt_le_termAt exponent hx k
  rcases hfar.stops with hsmall | hzero
  · have hsmall := lt_def.mp hsmall
    have hlarge := le_def.mp hlarge
    omega
  · have hle := termAt_le_termAt exponent hx (k + 1)
    have hnonneg := termAt_nonneg exponent x (k + 1)
    exact hnext (termAt_eq_zero_of_le (by omega) (show k + 1 ≤ n + 1 by omega))

end WeightedMarket.Fixed
