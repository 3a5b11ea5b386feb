/-
  What a redemption is worth.

  Redeeming a part of the shares pays the same part of every reserve, less what is truncated: the part
  itself is rounded down by less than one raw unit, which counts once for every coin of the reserve,
  and what is due is cut to whole units of its asset (`Redeems.paid_bounds`).  Nothing is rounded up, so
  nobody is paid more than the shares given in are worth, and what is left of a reserve per share never
  falls, neither by one redemption nor by a run of them (`perShareLe_run`).
-/
import Mathlib.Algebra.Order.Field.Rat
import Mathlib.Tactic.FieldSimp
import Mathlib.Tactic.Ring
import WeightedMarket.Proofs.Reserves

namespace WeightedMarket.Pool

variable {p q : Pool}

/-- Assets pay what they owe, one that is skipped owing nothing. -/
theorem total_payouts_eq_due {ratio : Fixed} {a : Asset} (hp : p.Valid) (h0 : 0 ≤ ratio.raw)
    (ha : a ∈ p.assets) : Coin.total (payouts ratio p.assets) a.denom = (due ratio a).raw := by
  rw [total_payouts hp.nodup ratio ha]
  split
  · rfl
  · next hnot =>
    have hnonneg := Fixed.truncateTo_nonneg
      (Fixed.raw_mul_nonneg h0 (hp.assets a ha).balance_nonneg) a.decimals.toNat
    have hzero : ¬ 0 < (due ratio a).raw := fun hpos => hnot (decide_eq_true hpos)
    unfold due at hzero ⊢
    omega

namespace Redeems

variable {shares fee refund ratio : Fixed} {e : Exit} {a : Asset}

/-! ## Payments -/

/-- What is paid of a denomination is what its asset owes. -/
theorem paid_eq (hp : p.Valid) (h : p.Redeems shares fee refund ratio e) (ha : a ∈ p.assets) :
    Coin.total e.coins a.denom = (due ratio a).raw := by
  rw [h.coins_eq]
  exact total_payouts_eq_due hp h.ratio_nonneg ha

/-- No asset pays more than the refunded part of it. -/
theorem due_mul_le (h : p.Redeems shares fee refund ratio e) (ha : 0 ≤ a.balance.raw) :
    (due ratio a).raw * p.totalShares.raw ≤ refund.raw * a.balance.raw := by
  have hsupply := h.supply_pos
  have hrefund := (refunded_le h.isFee h.shares_pos h.refund_eq).1
  have hratio := Fixed.raw_quo_le hrefund hsupply
  rw [← h.ratio_eq] at hratio
  have hmul := Fixed.raw_mul_le h.ratio_nonneg ha
  have hdue := Fixed.truncateTo_le (Fixed.raw_mul_nonneg h.ratio_nonneg ha) a.decimals.toNat
  refine Int.le_of_mul_le_mul_right ?_ Fixed.scale_pos
  calc (due ratio a).raw * p.totalShares.raw * Fixed.scale
      = (due ratio a).raw * (p.totalShares.raw * Fixed.scale) := by ring
    _ ≤ (ratio.mul a.balance).raw * (p.totalShares.raw * Fixed.scale) :=
        Int.mul_le_mul_of_nonneg_right hdue
          (Int.mul_nonneg (Int.le_of_lt hsupply) (Int.le_of_lt Fixed.scale_pos))
    _ = (ratio.mul a.balance).raw * Fixed.scale * p.totalShares.raw := by ring
    _ ≤ ratio.raw * a.balance.raw * p.totalShares.raw :=
        Int.mul_le_mul_of_nonneg_right hmul (Int.le_of_lt hsupply)
    _ = ratio.raw * p.totalShares.raw * a.balance.raw := by ring
    _ ≤ refund.raw * Fixed.scale * a.balance.raw := Int.mul_le_mul_of_nonneg_right hratio ha
    _ = refund.raw * a.balance.raw * Fixed.scale := by ring

/-- An asset pays less than the refunded part of it by at most a unit and what the truncation of the
part is worth. -/
theorem lt_due_mul (h : p.Redeems shares fee refund ratio e) (ha : 0 ≤ a.balance.raw) :
    refund.raw * a.balance.raw * Fixed.scale <
      (((due ratio a).raw + Fixed.unitOf a.decimals.toNat) * Fixed.scale + a.balance.raw) *
        p.totalShares.raw := by
  have hratio := Fixed.lt_raw_quo refund h.supply_pos
  rw [← h.ratio_eq] at hratio
  have hmul := Fixed.lt_raw_mul ratio a.balance
  have hdue : (ratio.mul a.balance).raw + 1 ≤ (due ratio a).raw + Fixed.unitOf a.decimals.toNat :=
    Fixed.lt_truncateTo (ratio.mul a.balance) a.decimals.toNat
  have hunits := Int.mul_le_mul_of_nonneg_right hdue (Int.le_of_lt Fixed.scale_pos)
  calc refund.raw * a.balance.raw * Fixed.scale = refund.raw * Fixed.scale * a.balance.raw := by ring
    _ ≤ (ratio.raw + 1) * p.totalShares.raw * a.balance.raw :=
        Int.mul_le_mul_of_nonneg_right (Int.le_of_lt hratio) ha
    _ = (ratio.raw * a.balance.raw + a.balance.raw) * p.totalShares.raw := by ring
    _ < (((due ratio a).raw + Fixed.unitOf a.decimals.toNat) * Fixed.scale + a.balance.raw) *
        p.totalShares.raw := Int.mul_lt_mul_of_pos_right (by omega) h.supply_pos

/-- **What is paid of an asset** is the refunded part of its reserve, less at most one unit and a raw
unit for every coin of the reserve. -/
theorem paid_bounds (hp : p.Valid) (h : p.Redeems shares fee refund ratio e) (ha : a ∈ p.assets) :
    (refund.raw * a.balance.raw / p.totalShares.raw - a.balance.raw / Fixed.scale -
        Fixed.unitOf a.decimals.toNat : ℚ) < Coin.total e.coins a.denom ∧
      (Coin.total e.coins a.denom : ℚ) ≤ refund.raw * a.balance.raw / p.totalShares.raw := by
  have hbalance := (hp.assets a ha).balance_nonneg
  have hsupply : (0 : ℚ) < p.totalShares.raw := by exact_mod_cast h.supply_pos
  have hscale : (0 : ℚ) < Fixed.scale := by exact_mod_cast Fixed.scale_pos
  have hle : ((due ratio a).raw * p.totalShares.raw : ℚ) ≤ refund.raw * a.balance.raw := by
    exact_mod_cast h.due_mul_le hbalance
  have hlt : (refund.raw * a.balance.raw * Fixed.scale : ℚ) <
      (((due ratio a).raw + Fixed.unitOf a.decimals.toNat) * Fixed.scale + a.balance.raw) *
        p.totalShares.raw := by
    exact_mod_cast h.lt_due_mul hbalance
  rw [h.paid_eq hp ha]
  constructor
  · rw [sub_sub, sub_lt_iff_lt_add, div_lt_iff₀ hsupply]
    refine lt_of_mul_lt_mul_right (hlt.trans_eq ?_) hscale.le
    field_simp
    ring
  · exact (le_div_iff₀ hsupply).mpr hle

/-! ## Reserves per share -/

/-- What is left of a reserve per share has not fallen. -/
theorem reserve_per_share_le (hp : p.Valid) (h : p.Redeems shares fee refund ratio e)
    (ha : a ∈ p.assets) :
    a.balance.raw * (p.totalShares.raw - shares.raw) ≤
      (a.balance.raw - Coin.total e.coins a.denom) * p.totalShares.raw := by
  have hbalance := (hp.assets a ha).balance_nonneg
  have hrefund := (refunded_le h.isFee h.shares_pos h.refund_eq).2
  have hpaid := h.due_mul_le hbalance
  have hworth := Int.mul_le_mul_of_nonneg_right hrefund hbalance
  rw [← h.paid_eq hp ha] at hpaid
  rw [Int.mul_sub, Int.sub_mul, Int.mul_comm a.balance.raw shares.raw]
  omega

end Redeems

/-! ## Runs -/

/-- Redemptions one after the other, each with its own shares and exit fee. -/
inductive Redemptions : Pool → Pool → Prop
  | nil (p : Pool) : Redemptions p p
  | cons {p q : Pool} {shares fee : Fixed} {e : Exit} (exit : p.exit shares fee = .ok e)
      (rest : Redemptions e.pool q) : Redemptions p q

/-- The assets of two pools are the same, in the same order, and no reserve per share is lower in the
second. -/
def PerShareLe (p q : Pool) : Prop :=
  q.denoms = p.denoms ∧ ∀ a ∈ p.assets, ∀ b ∈ q.assets, b.denom = a.denom →
    a.balance.raw * q.totalShares.raw ≤ b.balance.raw * p.totalShares.raw

theorem PerShareLe.refl (hp : p.Valid) : p.PerShareLe p := by
  refine ⟨rfl, ?_⟩
  intro a ha b hb hdenom
  rw [hp.eq_of_denom hb ha hdenom]

theorem PerShareLe.trans {s : Pool} (hp : p.Valid) (hq : q.Valid) (hs : s.Valid)
    (hpq : p.PerShareLe q) (hqs : q.PerShareLe s) : p.PerShareLe s := by
  refine ⟨hqs.1.trans hpq.1, ?_⟩
  intro a ha c hc hdenom
  -- the pool in between holds the same asset
  have hmem : a.denom ∈ q.denoms := hpq.1 ▸ List.mem_map_of_mem ha
  obtain ⟨b, hb, hba⟩ := List.mem_map.mp hmem
  have hfirst := hpq.2 a ha b hb hba
  have hsecond := hqs.2 b hb c hc (hdenom.trans hba.symm)
  refine Int.le_of_mul_le_mul_right ?_ hq.shares_pos
  calc a.balance.raw * s.totalShares.raw * q.totalShares.raw
      = a.balance.raw * q.totalShares.raw * s.totalShares.raw := by ring
    _ ≤ b.balance.raw * p.totalShares.raw * s.totalShares.raw :=
        Int.mul_le_mul_of_nonneg_right hfirst (Int.le_of_lt hs.shares_pos)
    _ = b.balance.raw * s.totalShares.raw * p.totalShares.raw := by ring
    _ ≤ c.balance.raw * q.totalShares.raw * p.totalShares.raw :=
        Int.mul_le_mul_of_nonneg_right hsecond (Int.le_of_lt hp.shares_pos)
    _ = c.balance.raw * p.totalShares.raw * q.totalShares.raw := by ring

/-- The step lemma. -/
theorem perShareLe_exit {shares fee : Fixed} {e : Exit} (hp : p.Valid)
    (h : p.exit shares fee = .ok e) : e.pool.Valid ∧ p.PerShareLe e.pool := by
  obtain ⟨refund, ratio, hredeems⟩ := exit_eq_ok hp h
  refine ⟨hredeems.valid, by rw [hredeems.pool, denoms_shifted], ?_⟩
  intro a ha b hb hdenom
  rw [hredeems.pool, mem_assets_shifted] at hb
  obtain ⟨a', ha', rfl⟩ := hb
  obtain rfl := hp.eq_of_denom ha' ha hdenom
  rw [hredeems.pool, totalShares_shifted]
  exact hredeems.reserve_per_share_le hp ha

/-- The run lemma. -/
theorem perShareLe_run (hp : p.Valid) (h : Redemptions p q) : q.Valid ∧ p.PerShareLe q := by
  induction h with
  | nil p => exact ⟨hp, .refl hp⟩
  | cons exit rest ih =>
    obtain ⟨hvalid, hstep⟩ := perShareLe_exit hp exit
    obtain ⟨hvalid', hrun⟩ := ih hvalid
    exact ⟨hvalid', hstep.trans hp hvalid hvalid' hrun⟩

/-- **Redemptions are fair to both sides.**  A redemption pays the refunded part of every reserve, at
most a unit and a raw unit for every coin short of it, never more, and never a whole reserve; it moves
the reserves by what it pays and the supply by the shares given in, and changes nothing else.  So over
every run of redemptions no reserve per share falls. -/
theorem redemption_bounds (hp : p.Valid) :
    (∀ shares fee e, p.exit shares fee = .ok e →
      ∃ refund, p.refunded shares fee = .ok refund ∧ refund.raw ≤ shares.raw ∧
        e.pool = p.shifted (fun d => -Coin.total e.coins d) (-shares.raw) ∧
        ∀ a ∈ p.assets,
          (refund.raw * a.balance.raw / p.totalShares.raw - a.balance.raw / Fixed.scale -
              Fixed.unitOf a.decimals.toNat : ℚ) < Coin.total e.coins a.denom ∧
            (Coin.total e.coins a.denom : ℚ) ≤ refund.raw * a.balance.raw / p.totalShares.raw ∧
            (0 < a.balance.raw → Coin.total e.coins a.denom < a.balance.raw)) ∧
      ∀ q, Redemptions p q → p.PerShareLe q := by
  refine ⟨?_, fun q hrun => (perShareLe_run hp hrun).2⟩
  intro shares fee e hexit
  obtain ⟨refund, ratio, h⟩ := exit_eq_ok hp hexit
  refine ⟨refund, h.refund_eq, (refunded_le h.isFee h.shares_pos h.refund_eq).2, h.pool, ?_⟩
  intro a ha
  obtain ⟨hlower, hupper⟩ := h.paid_bounds hp ha
  refine ⟨hlower, hupper, ?_⟩
  intro hpos
  rw [h.paid_eq hp ha]
  exact h.due_lt hpos

/-! ## A redemption that truncates -/

/-- A pool of three shares, with an asset that only pays whole coins and one of which nothing is left. -/
def unequalPool : Pool where
  id := 1
  assets := [⟨"a", .ofInt 1000, .one, 6⟩, ⟨"b", .ofInt 7, .ofInt 2, 0⟩, ⟨"c", .zero, .one, 18⟩]
  totalShares := .ofInt 3
  swapFee := .zero
  exitFee := ⟨10000000000000000⟩
  window := none
  shareDecimals := 18

theorem unequalPool_valid : unequalPool.Valid := by decide

/-- One of the three shares is redeemed at an exit fee of a hundredth: of the seven coins two are paid. -/
def redeemedOne : Exit where
  coins := [⟨"a", .ofInt 330⟩, ⟨"b", .ofInt 2⟩]
  pool := { unequalPool with
    assets := [⟨"a", .ofInt 670, .one, 6⟩, ⟨"b", .ofInt 5, .ofInt 2, 0⟩, ⟨"c", .zero, .one, 18⟩]
    totalShares := .ofInt 2 }

theorem redeemedOne_bounds : unequalPool.Valid ∧
    unequalPool.exit .one unequalPool.exitFee = .ok redeemedOne ∧
    Coin.total redeemedOne.coins "b" < 7 * Fixed.scale ∧ unequalPool.PerShareLe redeemedOne.pool := by
  have hexit : unequalPool.exit .one unequalPool.exitFee = .ok redeemedOne := by decide +kernel
  obtain ⟨hstep, hrun⟩ := redemption_bounds unequalPool_valid
  obtain ⟨_, _, _, _, hpaid⟩ := hstep _ _ _ hexit
  exact ⟨unequalPool_valid, hexit, (hpaid ⟨"b", .ofInt 7, .ofInt 2, 0⟩ (by decide)).2.2 (by decide),
    hrun _ (.cons hexit (.nil _))⟩

end WeightedMarket.Pool
