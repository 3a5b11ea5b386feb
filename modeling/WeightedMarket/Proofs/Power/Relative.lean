/-
  Relative shortfalls.

  A number lacks a part of another if it is short of it by at most that part of it (`Lacks`).  Shortfalls
  add up along products, powers and chains, however large the numbers are.  The roundings of products and
  quotients of at least one are such shortfalls too, by the part of one unit; so an integer power of a base
  of at least one lacks two units' part for each of its factors at most (`power_lacks`).
-/
import WeightedMarket.Proofs.Power.Side

namespace WeightedMarket.Fixed

/-- `x` is short of `a` by at most the part `e` of it. -/
structure Lacks (e a x : ℝ) : Prop where
  nonneg : 0 ≤ x
  le : a * (1 - e) ≤ x

namespace Lacks

variable {a b e f x y : ℝ}

theorem of_le (ha : 0 ≤ a) (he : 0 ≤ e) (h : a ≤ x) : Lacks e a x where
  nonneg := ha.trans h
  le := by
    have hpart := mul_nonneg ha he
    linarith

/-- What lacks a part lacks no more than a larger part. -/
theorem mono (ha : 0 ≤ a) (h : Lacks e a x) (hef : e ≤ f) : Lacks f a x where
  nonneg := h.nonneg
  le := (mul_le_mul_of_nonneg_left (by linarith) ha).trans h.le

/-- An absolute shortfall is a relative one of what is at least one. -/
theorem of_le_add (ha : 1 ≤ a) (he : 0 ≤ e) (hx : 0 ≤ x) (h : a ≤ x + e) : Lacks e a x where
  nonneg := hx
  le := by
    have hpart := le_mul_of_one_le_left he ha
    linarith

/-- What two shortfalls leave is no less than what their sum would. -/
theorem le_one_sub_mul (he : 0 ≤ e) (hf : 0 ≤ f) : 1 - (e + f) ≤ (1 - e) * (1 - f) := by
  have hboth := mul_nonneg he hf
  linarith

/-- Lacks add up along a chain. -/
theorem trans (ha : 0 ≤ a) (he : 0 ≤ e) (hf : 0 ≤ f) (hx : Lacks e a x) (hy : Lacks f x y) :
    Lacks (e + f) a y where
  nonneg := hy.nonneg
  le := by
    rcases le_total 1 f with hwhole | hpart
    · -- a shortfall of the whole leaves nothing to show
      exact (mul_nonpos_of_nonneg_of_nonpos ha (by linarith)).trans hy.nonneg
    · calc a * (1 - (e + f)) ≤ a * ((1 - e) * (1 - f)) :=
            mul_le_mul_of_nonneg_left (le_one_sub_mul he hf) ha
        _ = a * (1 - e) * (1 - f) := by ring
        _ ≤ x * (1 - f) := mul_le_mul_of_nonneg_right hx.le (by linarith)
        _ ≤ y := hy.le

/-- The lacks of the factors add up in a product. -/
theorem mul (ha : 0 ≤ a) (hb : 0 ≤ b) (he : 0 ≤ e) (hf : 0 ≤ f) (hx : Lacks e a x) (hy : Lacks f b y) :
    Lacks (e + f) (a * b) (x * y) := by
  have hfirst : Lacks e (a * b) (x * b) := by
    constructor
    · exact mul_nonneg hx.nonneg hb
    · calc a * b * (1 - e) = a * (1 - e) * b := by ring
        _ ≤ x * b := mul_le_mul_of_nonneg_right hx.le hb
  have hsecond : Lacks f (x * b) (x * y) := by
    constructor
    · exact mul_nonneg hx.nonneg hy.nonneg
    · calc x * b * (1 - f) = x * (b * (1 - f)) := by ring
        _ ≤ x * y := mul_le_mul_of_nonneg_left hy.le hx.nonneg
  exact hfirst.trans (mul_nonneg ha hb) he hf hsecond

/-- A power lacks as many times as much as it has factors. -/
theorem pow (ha : 0 ≤ a) (he : 0 ≤ e) (h : Lacks e a x) (n : ℕ) : Lacks (n * e) (a ^ n) (x ^ n) := by
  induction n with
  | zero => exact of_le (pow_nonneg ha 0) (by simp) (by simp)
  | succ n ih =>
    have hpow := ih.mul (pow_nonneg ha n) ha (mul_nonneg n.cast_nonneg he) he h
    rw [pow_succ, pow_succ, Nat.cast_succ, add_mul, one_mul]
    exact hpow

end Lacks

/-! ## Roundings -/

variable {a b : Fixed}

/-- A product of at least one lacks at most the last place; so does a quotient. -/
theorem lacks_mul (ha : 0 ≤ a.val) (hb : 0 ≤ b.val) (h : 1 ≤ (a.mul b).val) :
    Lacks ulp (a.val * b.val) (a.mul b).val :=
  .of_le_add (h.trans (val_mul_le ha hb)) ulp_pos.le (zero_le_one.trans h) (lt_val_mul a b).le

theorem lacks_quo (ha : 0 ≤ a.val) (hb : 0 < b.val) (h : 1 ≤ (a.quo b).val) :
    Lacks ulp (a.val / b.val) (a.quo b).val :=
  .of_le_add (h.trans (val_quo_le ha hb)) ulp_pos.le (zero_le_one.trans h) (lt_val_quo a hb).le

/-! ## Integer powers -/

/-- A computed `k`-th power of what is at least one, which lacks the part of `units` units. -/
structure IsNearly (q : ℝ) (k units : ℕ) (a : Fixed) : Prop where
  one_le : 1 ≤ a.val
  lacks : Lacks (units * ulp) (q ^ k) a.val

/-- A product adds the units of its factors up, and one of its own. -/
theorem IsNearly.mul {q : ℝ} {i j c d : ℕ} (hq : 1 ≤ q) (ha : IsNearly q i c a) (hb : IsNearly q j d b) :
    IsNearly q (i + j) (c + d + 1) (a.mul b) := by
  have hulp := ulp_pos
  have ha0 := ha.lacks.nonneg
  have hb0 := hb.lacks.nonneg
  have hone : 1 ≤ (a.mul b).val := by
    rw [one_le_val]
    exact (one_le_val.mp ha.one_le).trans (le_raw_mul_left (val_nonneg.mp ha0) (one_le_val.mp hb.one_le))
  refine ⟨hone, ?_⟩
  have hexact : Lacks (c * ulp + d * ulp) (q ^ i * q ^ j) (a.val * b.val) :=
    ha.lacks.mul (by positivity) (by positivity) (by positivity) (by positivity) hb.lacks
  have hrounded := hexact.trans (by positivity) (by positivity) hulp.le (lacks_mul ha0 hb0 hone)
  have hunits : ((c + d + 1 : ℕ) : ℝ) * ulp = c * ulp + d * ulp + ulp := by
    push_cast
    ring
  rw [pow_add, hunits]
  exact hrounded

/-- **An integer power** of a base of at least one lacks two units' part for each factor at most. -/
theorem power_lacks {base : Fixed} (hbase : 1 ≤ base.val) (n : ℕ) :
    Lacks (2 * n * ulp) (base.val ^ n) (base.power n).val := by
  -- one unit less for the squares makes up for the rounding of each product
  have h : IsNearly base.val n (2 * n) (base.power n) := by
    refine power_induction (P := fun m a => IsNearly base.val m (2 * m) a)
      (Q := fun k b => ∃ c, c + 1 = 2 * k ∧ IsNearly base.val k c b) ?_ ?_ ?_ ?_ n
    · rintro m k a b ha ⟨c, hc, hb⟩
      have hproduct := ha.mul hbase hb
      rwa [show 2 * m + c + 1 = 2 * (m + k) by omega] at hproduct
    · rintro k b ⟨c, hc, hb⟩
      exact ⟨c + c + 1, by omega, hb.mul hbase hb⟩
    · exact ⟨by simp, .of_le (by simp) (by simp) (by simp)⟩
    · refine ⟨1, rfl, hbase, .of_le ?_ ?_ (pow_one _).le⟩
      · exact pow_nonneg (zero_le_one.trans hbase) 1
      · exact mul_nonneg (Nat.cast_nonneg 1) ulp_pos.le
  have hlacks := h.lacks
  push_cast at hlacks
  exact hlacks

end WeightedMarket.Fixed
