/-
  What a deposit does to the other holders.

  On the curve a deposit of one asset keeps the invariant per share, if all of it counts; the fee on
  what is in effect swapped into the other assets is what the holders gain.  The power that the shares
  are computed from can be too large by its excess, though, and without a fee that dilutes them
  (`dilutingCoin`).

  They lose no more than the excess, which is at most 10⁻⁸ and at most 3.1 · 10⁻⁸ of the deposit's
  part of the reserve (`Deposits.dilutesAtMost_of_excess_le`).  A fee makes up for it if, counted for
  the asset's part of the weights, it is at least 10⁻⁷ (`rpow_mul_excess_le`).
-/
import WeightedMarket.Proofs.Invariant
import WeightedMarket.Proofs.Power.Above

namespace WeightedMarket

open Decision Fixed

/-! ## A fee against an excess -/

/-- A power grows at least by half of the exponent's part of what its base grows by. -/
theorem one_add_le_rpow {t f : ℝ} (ht0 : 0 ≤ t) (ht1 : t ≤ 1) (hf0 : 0 ≤ f) (hf1 : f ≤ 1) :
    1 + f * t / 2 ≤ (1 + t) ^ f := by
  have hpos : 0 < 1 + t := by linarith
  -- the concave bound is one for the reciprocal, which lies below its tangent
  have hinverse : ((1 + t) ^ f)⁻¹ ≤ 1 - f * (t / (1 + t)) := by
    have h := rpow_one_add_le_one_add_mul_self (s := -(t / (1 + t)))
      (by rw [neg_le_neg_iff, div_le_one hpos]; linarith) hf0 hf1
    have hbase : 1 + -(t / (1 + t)) = (1 + t)⁻¹ := by
      field_simp
      ring
    rw [hbase, Real.inv_rpow hpos.le] at h
    linarith
  have hhalf : t / 2 ≤ t / (1 + t) := div_le_div_of_nonneg_left ht0 hpos (by linarith)
  have hscaled := mul_le_mul_of_nonneg_left hhalf hf0
  have hpower := Real.rpow_pos_of_pos hpos f
  have hone : 1 ≤ (1 - f * t / 2) * (1 + t) ^ f := by
    rw [inv_le_iff_one_le_mul₀ hpower] at hinverse
    exact hinverse.trans (mul_le_mul_of_nonneg_right (by linarith) hpower.le)
  have hsquare : (1 + f * t / 2) * (1 - f * t / 2) ≤ 1 := by
    have := mul_self_nonneg (f * t / 2)
    linarith
  have hless : 0 ≤ 1 + f * t / 2 := by positivity
  calc 1 + f * t / 2 ≤ (1 + f * t / 2) * ((1 - f * t / 2) * (1 + t) ^ f) :=
        le_mul_of_one_le_right hless hone
    _ = (1 + f * t / 2) * (1 - f * t / 2) * (1 + t) ^ f := by ring
    _ ≤ (1 + t) ^ f := mul_le_of_le_one_left hpower.le hsquare

/-- What a fee withholds makes up for the excess of a power. -/
theorem rpow_mul_excess_le {y g ε f : ℝ} (hy : 1 ≤ y) (hε0 : 0 ≤ ε) (hε1 : ε ≤ 1) (hf0 : 0 ≤ f)
    (hf1 : f ≤ 1) (hfee : y + ε * (y - 1) ≤ g) (hmargin : 1 / 10 ^ 7 ≤ f * ε) :
    y ^ f * (1 + excess y) ≤ g ^ f := by
  have hinverse0 : 0 ≤ 1 - 1 / y := by
    rw [sub_nonneg, div_le_one (by linarith)]
    exact hy
  have hinverse1 : 1 - 1 / y ≤ 1 := by
    have : 0 ≤ 1 / y := by positivity
    linarith
  have ht0 := mul_nonneg hε0 hinverse0
  have hgrown : y * (1 + ε * (1 - 1 / y)) ≤ g := by
    have hexpand : y * (1 + ε * (1 - 1 / y)) = y + ε * (y - 1) := by
      field_simp
    rw [hexpand]
    exact hfee
  have hexcess : 1 + excess y ≤ (1 + ε * (1 - 1 / y)) ^ f := by
    have hpower := one_add_le_rpow ht0 (mul_le_one₀ hε1 hinverse0 hinverse1) hf0 hf1
    have hsmall : excess y ≤ 31 / 10 ^ 9 * (1 - 1 / y) := min_le_right _ _
    have hscaled := mul_le_mul_of_nonneg_right hmargin hinverse0
    linarith
  calc y ^ f * (1 + excess y) ≤ y ^ f * (1 + ε * (1 - 1 / y)) ^ f :=
        mul_le_mul_of_nonneg_left hexcess (Real.rpow_nonneg (by linarith) f)
    _ = (y * (1 + ε * (1 - 1 / y))) ^ f := (Real.mul_rpow (by linarith) (by linarith)).symm
    _ ≤ g ^ f := Real.rpow_le_rpow (mul_nonneg (by linarith) (by linarith)) hgrown hf0

namespace Pool

variable {p : Pool} {a : Asset} {coin : Coin} {fee issued : Fixed} {j : Join}

/-! ## Weights -/

/-- The total weight is the sum of the stored weights. -/
theorem raw_totalWeight (p : Pool) : p.totalWeight.raw = (p.assets.map (·.weight.raw)).sum := by
  have hfold : ∀ (l : List Asset) (sum : Fixed),
      (l.foldl (fun sum a => sum + a.weight) sum).raw = sum.raw + (l.map (·.weight.raw)).sum := by
    intro l
    induction l with
    | nil => intro sum; simp
    | cons b l ih =>
      intro sum
      rw [List.foldl_cons, ih, List.map_cons, List.sum_cons, raw_add, Int.add_assoc]
  rw [totalWeight, hfold]
  exact Int.zero_add _

/-- No asset has all the weight. -/
theorem Valid.weight_lt (hp : p.Valid) (ha : a ∈ p.assets) : a.weight.raw < p.totalWeight.raw := by
  have hsplit := List.sum_map_erase (fun b : Asset => b.weight.raw) ha
  have hothers : 0 < ((p.assets.erase a).map (·.weight.raw)).sum := by
    refine List.sum_pos _ ?_ ?_
    · intro n hn
      obtain ⟨b, hb, rfl⟩ := List.mem_map.mp hn
      exact (hp.assets b (List.mem_of_mem_erase hb)).weight_pos
    · intro hnil
      have hlength := List.length_erase_of_mem ha
      rw [List.map_eq_nil_iff.mp hnil, List.length_nil] at hlength
      have := hp.two_le
      omega
  rw [raw_totalWeight]
  omega

/-- A pool that has an asset has a weight. -/
theorem Valid.totalWeight_pos (hp : p.Valid) (ha : a ∈ p.assets) : 0 < p.totalWeight.raw :=
  Int.lt_trans (hp.assets a ha).weight_pos (hp.weight_lt ha)

/-- The part of the total weight that an asset has, truncated. -/
def part (p : Pool) (a : Asset) : Fixed := a.weight.quo p.totalWeight

/-- An asset's part of the weight is a proper fraction, truncated. -/
theorem Valid.part_bounds (hp : p.Valid) (ha : a ∈ p.assets) :
    0 ≤ (p.part a).raw ∧ (p.part a).raw < scale ∧
      (p.part a).val ≤ a.weight.raw / p.totalWeight.raw := by
  have hweight := (hp.assets a ha).weight_pos
  have hlt := hp.weight_lt ha
  have htotal := hp.totalWeight_pos ha
  refine ⟨raw_quo_nonneg (Int.le_of_lt hweight) (Int.le_of_lt htotal), ?_,
    val_quo_le_ratio (Int.le_of_lt hweight) htotal⟩
  have hquo := raw_quo_le (Int.le_of_lt hweight) htotal
  refine Int.lt_of_mul_lt_mul_right (Int.lt_of_le_of_lt hquo ?_) (Int.le_of_lt htotal)
  rw [Int.mul_comm]
  exact Int.mul_lt_mul_of_pos_left hlt scale_pos

/-! ## Shares -/

/-- The part of the fee that a deposit pays: that of what is swapped into the other assets. -/
def depositFee (p : Pool) (a : Asset) (fee : Fixed) : Fixed := (one - p.part a).mul fee

/-- What the reserve of an asset is counted as when an amount is deposited. -/
def deposited (p : Pool) (a : Asset) (amount fee : Fixed) : Fixed :=
  a.balance + amount.mul (one - p.depositFee a fee)

/-- The ratio of the reserve after a deposit and before it, whose power the supply follows. -/
def depositRatio (p : Pool) (a : Asset) (amount fee : Fixed) : Fixed :=
  (p.deposited a amount fee).quo a.balance

/-- What is issued is the supply's part that the power exceeds one by. -/
theorem sharesForDeposit_eq_ok {balance part shares amount fee issued : Fixed}
    (h : sharesForDeposit balance part shares amount fee = .ok issued) :
    ((one - part).mul fee).IsFee ∧ ∃ power,
      ((balance + amount.mul (one - (one - part).mul fee)).quo balance).raise part = .ok power ∧
        issued = -(shares.mul (one - power)) := by
  rw [sharesForDeposit, bind_eq_ok] at h
  obtain ⟨rest, hrest, h⟩ := h
  rw [bind_eq_ok] at h
  obtain ⟨d, hd, h⟩ := h
  rw [pure_eq_ok] at h
  subst h
  obtain ⟨hfee, rfl⟩ := Fee.complement_eq_ok.mp hrest
  obtain ⟨_, power, hpower, rfl⟩ := Curve.delta_eq_ok hd
  have hone : part.quo one = part := Fixed.ext (Int.mul_tdiv_cancel _ (by decide))
  rw [hone] at hpower
  exact ⟨hfee, power, hpower, rfl⟩

/-- What is issued, if anything, is rounded down. -/
theorem issued_mul_le {shares power : Fixed} (h : 0 < (-(shares.mul (one - power))).raw) :
    (-(shares.mul (one - power))).raw * scale ≤ shares.raw * (power.raw - scale) := by
  have hissued : (-(shares.mul (one - power))).raw = (shares.raw * (power.raw - scale)).tdiv scale := by
    have hneg : shares.raw * (power.raw - scale) = -(shares.raw * (scale - power.raw)) := by ring
    rw [hneg, Int.neg_tdiv]
    rfl
  have hgrows : 0 ≤ shares.raw * (power.raw - scale) := by
    by_contra hnot
    have hnonneg : 0 ≤ (-(shares.raw * (power.raw - scale))).tdiv scale :=
      Int.tdiv_nonneg (by omega) (Int.le_of_lt scale_pos)
    rw [Int.neg_tdiv] at hnonneg
    omega
  rw [hissued]
  exact tdiv_mul_le hgrows scale_pos

/-- The invariant per share, to the power of the total weight, falls by at most the factor `n / d` to
that power: of a reserve that grows by an amount, and a supply that grows by some shares. -/
def DilutesAtMost (p : Pool) (a : Asset) (amount shares n d : Int) : Prop :=
  a.balance.raw ^ a.weight.raw.toNat *
      ((p.totalShares.raw + shares) * d) ^ p.totalWeight.raw.toNat ≤
    (a.balance.raw + amount) ^ a.weight.raw.toNat * (p.totalShares.raw * n) ^ p.totalWeight.raw.toNat

/-- The reserve's exact growth. -/
noncomputable def growth (a : Asset) (amount : Fixed) : ℝ :=
  ((a.balance.raw + amount.raw : Int) : ℝ) / a.balance.raw

namespace Deposits

/-- The supply afterwards is at most the power's part of the supply before. -/
theorem supply_mul_le (h : p.Deposits coin fee a issued j) : (p.depositFee a fee).IsFee ∧
    ∃ power, (p.depositRatio a coin.amount fee).raise (p.part a) = .ok power ∧
      (p.totalShares.raw + j.shares.raw) * scale ≤ p.totalShares.raw * power.raw := by
  obtain ⟨hfee, power, hpower, rfl⟩ := sharesForDeposit_eq_ok h.issued_eq
  refine ⟨hfee, power, hpower, ?_⟩
  have hissued : 0 < (-(p.totalShares.mul (one - power))).raw := by
    by_contra hnot
    have hshares := truncateTo_nonpos (Int.not_lt.mp hnot) p.shareDecimals.toNat
    rw [← h.shares_eq] at hshares
    exact absurd h.shares_pos (Int.not_lt.mpr hshares)
  have hshares := truncateTo_le (Int.le_of_lt hissued) p.shareDecimals.toNat
  rw [← h.shares_eq] at hshares
  have hscaled := Int.mul_le_mul_of_nonneg_right hshares (Int.le_of_lt scale_pos)
  have hexact := issued_mul_le hissued
  linarith

/-- What the reserve grows by is the deposit's ratio to it. -/
theorem growth_eq (h : p.Deposits coin fee a issued j) :
    growth a coin.amount = 1 + coin.amount.val / a.balance.val := by
  have hbalance : (0 : ℝ) < a.balance.raw := by exact_mod_cast h.balance_pos
  rw [growth, val, val, div_div_div_cancel_right₀ scale_cast_pos.ne']
  push_cast
  rw [add_div, div_self hbalance.ne']

/-- A deposit makes a balance grow. -/
theorem one_le_growth (h : p.Deposits coin fee a issued j) : 1 ≤ growth a coin.amount := by
  rw [h.growth_eq]
  exact le_add_of_nonneg_right
    (div_nonneg (val_pos.mpr h.amount_pos).le (val_pos.mpr h.balance_pos).le)

/-- No fee takes more than the deposit, so that the reserve is counted as no less than before. -/
theorem balance_le_deposited (h : p.Deposits coin fee a issued j) :
    a.balance.raw ≤ (p.deposited a coin.amount fee).raw :=
  Int.le_add_of_nonneg_right (raw_mul_nonneg (Int.le_of_lt h.amount_pos)
    (Int.sub_nonneg_of_le (Int.le_of_lt h.supply_mul_le.1.2)))

/-- The growth as the deposit computes it is at least one, too, for what is left of the amount is not
negative. -/
theorem scale_le_depositRatio (h : p.Deposits coin fee a issued j) :
    scale ≤ (p.depositRatio a coin.amount fee).raw := by
  have hself : a.balance.quo a.balance = one :=
    Fixed.ext (Int.mul_tdiv_cancel_left _ (Int.ne_of_gt h.balance_pos))
  have hquo := raw_quo_le_raw_quo h.balance_pos h.balance_le_deposited
  rw [hself] at hquo
  exact hquo

/-- The ratio grows by what the fee leaves of the deposit, at most. -/
theorem depositRatio_le (h : p.Deposits coin fee a issued j) :
    (p.depositRatio a coin.amount fee).val ≤
      1 + coin.amount.val / a.balance.val * (1 - (p.depositFee a fee).val) := by
  have hbalance : 0 < a.balance.val := val_pos.mpr h.balance_pos
  have hamount : 0 < coin.amount.val := val_pos.mpr h.amount_pos
  have hrest : 0 ≤ (one - p.depositFee a fee).val :=
    val_nonneg.mpr (Int.sub_nonneg_of_le (Int.le_of_lt h.supply_mul_le.1.2))
  have hdeposited : 0 ≤ (p.deposited a coin.amount fee).val :=
    hbalance.le.trans (val_le_val.mpr h.balance_le_deposited)
  have hmul := val_mul_le hamount.le hrest
  rw [val_sub, val_one] at hmul
  refine (val_quo_le hdeposited hbalance).trans ?_
  rw [div_le_iff₀ hbalance, deposited, val_add, add_mul, one_mul, mul_right_comm,
    div_mul_cancel₀ _ hbalance.ne']
  linarith

/-- The ratio is so far below the exact growth as the fee withholds. -/
theorem depositRatio_add_le (h : p.Deposits coin fee a issued j) :
    (p.depositRatio a coin.amount fee).val +
        (p.depositFee a fee).val * ((p.depositRatio a coin.amount fee).val - 1) ≤
      growth a coin.amount := by
  have hfee : 0 ≤ (p.depositFee a fee).val := val_nonneg.mpr h.supply_mul_le.1.1
  have hpart : 0 ≤ coin.amount.val / a.balance.val :=
    div_nonneg (val_pos.mpr h.amount_pos).le (val_pos.mpr h.balance_pos).le
  have hratio := h.depositRatio_le
  have hless : (p.depositRatio a coin.amount fee).val - 1 ≤ coin.amount.val / a.balance.val := by
    have := mul_nonneg hpart hfee
    linarith
  have hwithheld := mul_le_mul_of_nonneg_left hless hfee
  rw [h.growth_eq]
  linarith

/-- What the reserve grows by is the deposit's part of it afterwards. -/
theorem one_sub_one_div_growth (h : p.Deposits coin fee a issued j) :
    1 - 1 / growth a coin.amount =
      coin.amount.raw / ((a.balance.raw + coin.amount.raw : Int) : ℝ) := by
  have hsum : (0 : ℝ) < ((a.balance.raw + coin.amount.raw : Int) : ℝ) := by
    exact_mod_cast Int.add_pos h.balance_pos h.amount_pos
  rw [growth, one_div_div, eq_div_iff hsum.ne', sub_mul, div_mul_cancel₀ _ hsum.ne']
  push_cast
  ring

/-- A supply that grows by no more than the exact growth's power dilutes by no more. -/
theorem dilutesAtMost_of_le (hp : p.Valid) (h : p.Deposits coin fee a issued j) {n d : Int}
    (hd : 0 < d)
    (hsupply : ((p.totalShares.raw + j.shares.raw : Int) : ℝ) * d ≤ p.totalShares.raw * n *
      growth a coin.amount ^ ((a.weight.raw : ℝ) / p.totalWeight.raw)) :
    p.DilutesAtMost a coin.amount.raw j.shares.raw n d := by
  have htotal := hp.totalWeight_pos (mem_of_asset h.asset).1
  have hweight := (hp.assets a (mem_of_asset h.asset).1).weight_pos
  have hbalance : (0 : ℝ) < a.balance.raw := by exact_mod_cast h.balance_pos
  have hsum : (0 : ℝ) < ((a.balance.raw + coin.amount.raw : Int) : ℝ) := by
    exact_mod_cast Int.add_pos h.balance_pos h.amount_pos
  have hshares : (0 : ℝ) ≤ (((p.totalShares.raw + j.shares.raw) * d : Int) : ℝ) := by
    exact_mod_cast Int.mul_nonneg
      (Int.add_nonneg (Int.le_of_lt hp.shares_pos) (Int.le_of_lt h.shares_pos)) (Int.le_of_lt hd)
  have hweightNat : ((a.weight.raw.toNat : ℕ) : ℝ) = a.weight.raw := by
    exact_mod_cast Int.toNat_of_nonneg (Int.le_of_lt hweight)
  have htotalNat : ((p.totalWeight.raw.toNat : ℕ) : ℝ) = p.totalWeight.raw := by
    exact_mod_cast Int.toNat_of_nonneg (Int.le_of_lt htotal)
  -- the reserve's ratio is the reciprocal of its growth, and so is its power
  have htarget : (((p.totalShares.raw + j.shares.raw) * d : Int) : ℝ) *
      ((a.balance.raw : ℝ) / ((a.balance.raw + coin.amount.raw : Int) : ℝ)) ^
        ((a.weight.raw.toNat : ℝ) / p.totalWeight.raw.toNat) ≤
      ((p.totalShares.raw * n : Int) : ℝ) := by
    have hgrowth := h.one_le_growth
    have hinverse : (a.balance.raw : ℝ) / ((a.balance.raw + coin.amount.raw : Int) : ℝ) =
        (growth a coin.amount)⁻¹ := by
      rw [growth, inv_div]
    rw [hinverse, hweightNat, htotalNat, Real.inv_rpow (by linarith), ← div_eq_mul_inv,
      div_le_iff₀ (Real.rpow_pos_of_pos (by linarith) _)]
    exact_mod_cast hsupply
  have hproduct := weighted_mul_le (div_pos hbalance hsum)
    (show p.totalWeight.raw.toNat ≠ 0 by omega) hbalance.le hshares hsum.le
    (div_mul_cancel₀ _ hsum.ne').ge htarget
  rw [DilutesAtMost]
  exact_mod_cast hproduct

/-- **The supply's growth.**  If the ratio's power, with its excess, is at most `n / d` of the exact
growth's, the invariant per share falls by no more. -/
theorem dilutesAtMost (hp : p.Valid) (h : p.Deposits coin fee a issued j) {n d : Int} (hn : 0 ≤ n)
    (hd : 0 < d)
    (hpower : (p.depositRatio a coin.amount fee).val ^ (p.part a).val *
        (1 + excess (p.depositRatio a coin.amount fee).val) ≤
      growth a coin.amount ^ (p.part a).val * (n / d)) :
    p.DilutesAtMost a coin.amount.raw j.shares.raw n d := by
  obtain ⟨_, hpart1, hpart⟩ := hp.part_bounds (mem_of_asset h.asset).1
  obtain ⟨_, power, hraise, hsupply⟩ := h.supply_mul_le
  have hshares : (0 : ℝ) < p.totalShares.raw := by exact_mod_cast hp.shares_pos
  have hdCast : (0 : ℝ) < d := by exact_mod_cast hd
  have hnCast : (0 : ℝ) ≤ n := by exact_mod_cast hn
  have hsupplyLe : ((p.totalShares.raw + j.shares.raw : Int) : ℝ) ≤ p.totalShares.raw * power.val := by
    rw [val, ← mul_div_assoc, le_div_iff₀ scale_cast_pos]
    exact_mod_cast hsupply
  -- the truncated part of the weights only lowers the power
  have hexact := Real.rpow_le_rpow_of_exponent_le h.one_le_growth hpart
  have hpowerLe : power.val * d ≤
      growth a coin.amount ^ ((a.weight.raw : ℝ) / p.totalWeight.raw) * n := by
    rw [← le_div_iff₀ hdCast, mul_div_assoc]
    exact (raise_le_of_one_le h.scale_le_depositRatio hpart1 hraise).trans
      (hpower.trans (mul_le_mul_of_nonneg_right hexact (div_nonneg hnCast hdCast.le)))
  refine h.dilutesAtMost_of_le hp hd ?_
  calc ((p.totalShares.raw + j.shares.raw : Int) : ℝ) * d
      ≤ p.totalShares.raw * power.val * d := mul_le_mul_of_nonneg_right hsupplyLe hdCast.le
    _ = p.totalShares.raw * (power.val * d) := by ring
    _ ≤ p.totalShares.raw * (growth a coin.amount ^ ((a.weight.raw : ℝ) / p.totalWeight.raw) * n) :=
        mul_le_mul_of_nonneg_left hpowerLe hshares.le
    _ = p.totalShares.raw * n *
          growth a coin.amount ^ ((a.weight.raw : ℝ) / p.totalWeight.raw) := by ring

/-- Without regard to the fee, the excess of the exact growth is not exceeded. -/
theorem dilutesAtMost_of_excess_le (hp : p.Valid) (h : p.Deposits coin fee a issued j) {n d : Int}
    (hn : 0 ≤ n) (hd : 0 < d) (hexcess : 1 + excess (growth a coin.amount) ≤ n / d) :
    p.DilutesAtMost a coin.amount.raw j.shares.raw n d := by
  have hgrowth := h.depositRatio_add_le
  have hratioVal := one_le_val.mpr h.scale_le_depositRatio
  have hpart := val_nonneg.mpr (hp.part_bounds (mem_of_asset h.asset).1).1
  have hfee : 0 ≤ (p.depositFee a fee).val := val_nonneg.mpr h.supply_mul_le.1.1
  have hless : (p.depositRatio a coin.amount fee).val ≤ growth a coin.amount := by
    have := mul_nonneg hfee (sub_nonneg.mpr hratioVal)
    linarith
  have hmono := excess_mono hratioVal hless
  have hnonneg := excess_nonneg hratioVal
  exact h.dilutesAtMost hp hn hd
    (mul_le_mul (Real.rpow_le_rpow (by linarith) hless hpart) (by linarith) (by linarith)
      (Real.rpow_nonneg (by linarith) _))

/-- A fee that, for the asset's part of the weights, is at least 10⁻⁷ makes up for the excess. -/
theorem dilutesAtMost_one (hp : p.Valid) (h : p.Deposits coin fee a issued j)
    (hmargin : 10 ^ 29 ≤ (p.part a).raw * (p.depositFee a fee).raw) :
    p.DilutesAtMost a coin.amount.raw j.shares.raw 1 1 := by
  obtain ⟨hpart0, hpart1, _⟩ := hp.part_bounds (mem_of_asset h.asset).1
  obtain ⟨hfee0, hfee1⟩ := h.supply_mul_le.1
  have hmarginVal : 1 / 10 ^ 7 ≤ (p.part a).val * (p.depositFee a fee).val := by
    have hcast : (10 : ℝ) ^ 29 ≤ (p.part a).raw * (p.depositFee a fee).raw := by
      exact_mod_cast hmargin
    rw [val_eq_mul_ulp, val_eq_mul_ulp, ulp_eq]
    linarith
  have hkept := rpow_mul_excess_le (one_le_val.mpr h.scale_le_depositRatio) (val_nonneg.mpr hfee0)
    (val_lt_one.mpr hfee1).le (val_nonneg.mpr hpart0) (val_lt_one.mpr hpart1).le
    h.depositRatio_add_le hmarginVal
  refine h.dilutesAtMost hp (by decide) (by decide) ?_
  rwa [Int.cast_one, div_one, mul_one]

end Deposits

/-! ## Dilution -/

/-- **A deposit hardly dilutes anybody.**  To the power of the total weight, the invariant per share
falls at most by the factor of one and 10⁻⁸, and at most by that of one and 3.1 · 10⁻⁸ of the
deposit's part of the reserve.  It does not fall at all if the asset's part of the weights, times the
fee that the deposit pays, is at least 10⁻⁷. -/
theorem dilution_le_of_joinWith (hp : p.Valid) (ha : p.asset coin.denom = .ok a)
    (h : p.joinWith coin fee = .ok j) :
    p.DilutesAtMost a coin.amount.raw j.shares.raw (10 ^ 8 + 1) (10 ^ 8) ∧
      p.DilutesAtMost a coin.amount.raw j.shares.raw
        (10 ^ 9 * (a.balance.raw + coin.amount.raw) + 31 * coin.amount.raw)
        (10 ^ 9 * (a.balance.raw + coin.amount.raw)) ∧
      (10 ^ 29 ≤ (p.part a).raw * (p.depositFee a fee).raw →
        a.balance.raw ^ a.weight.raw.toNat *
            (p.totalShares.raw + j.shares.raw) ^ p.totalWeight.raw.toNat ≤
          (a.balance.raw + coin.amount.raw) ^ a.weight.raw.toNat *
            p.totalShares.raw ^ p.totalWeight.raw.toNat) := by
  obtain ⟨a', issued, hdeposits⟩ := joinWith_eq_ok hp h
  cases ha.symm.trans hdeposits.asset
  have hbalance := hdeposits.balance_pos
  have hamount := hdeposits.amount_pos
  refine ⟨?_, ?_, ?_⟩
  · refine hdeposits.dilutesAtMost_of_excess_le hp (by norm_num) (by norm_num) ?_
    have hsmall : excess (growth a coin.amount) ≤ 1 / 10 ^ 8 := min_le_left _ _
    push_cast
    linarith
  · have hsum : 0 < a.balance.raw + coin.amount.raw := Int.add_pos hbalance hamount
    refine hdeposits.dilutesAtMost_of_excess_le hp (by omega) (by omega) ?_
    have hsmall : excess (growth a coin.amount) ≤ 31 / 10 ^ 9 * (1 - 1 / growth a coin.amount) :=
      min_le_right _ _
    have hsumCast : (0 : ℝ) < ((a.balance.raw + coin.amount.raw : Int) : ℝ) := by exact_mod_cast hsum
    have hscaled := mul_le_mul_of_nonneg_right hsmall hsumCast.le
    rw [hdeposits.one_sub_one_div_growth, mul_assoc, div_mul_cancel₀ _ hsumCast.ne'] at hscaled
    rw [le_div_iff₀ (by exact_mod_cast (show 0 < 10 ^ 9 * (a.balance.raw + coin.amount.raw) by omega))]
    push_cast at hscaled ⊢
    linarith
  · intro hmargin
    have hnone := hdeposits.dilutesAtMost_one hp hmargin
    rwa [DilutesAtMost, Int.mul_one, Int.mul_one] at hnone

/-! ## A deposit that dilutes -/

/-- A bit more than half a coin is deposited in `dustPool`, where an asset has half of the weight. -/
def dilutingCoin : Coin := ⟨"a", ⟨542883523319026600⟩⟩

/-- What `dilutingCoin` is issued without a fee; at most 271074355129469012 raw units would dilute
nobody. -/
def dilutingJoin : Join :=
  ⟨⟨271074358509649200⟩, { dustPool with
    assets := [⟨"a", ⟨100542883523319026600⟩, ⟨1⟩, 18⟩, ⟨"b", .ofInt 40, ⟨1⟩, 18⟩]
    totalShares := ⟨100271074358509649200⟩ }⟩

theorem joinWith_dilutingCoin : dustPool.joinWith dilutingCoin .zero = .ok dilutingJoin := by
  decide +kernel

/-- What `dilutingCoin` is issued for the pool's own fee of three parts in a thousand. -/
def payingJoin : Join :=
  ⟨⟨270668295754449100⟩, { dustPool with
    assets := [⟨"a", ⟨100542883523319026600⟩, ⟨1⟩, 18⟩, ⟨"b", .ofInt 40, ⟨1⟩, 18⟩]
    totalShares := ⟨100270668295754449100⟩ }⟩

theorem joinWith_payingCoin : dustPool.joinWith dilutingCoin dustPool.swapFee = .ok payingJoin := by
  decide +kernel

/-- Without a fee the holders of `dustPool` lose no more than the factor, and for its own fee nothing. -/
theorem dilutingCoin_within :
    dustPool.DilutesAtMost ⟨"a", .ofInt 100, ⟨1⟩, 18⟩ 542883523319026600 271074358509649200
        (10 ^ 8 + 1) (10 ^ 8) ∧
      (100000000000000000000 : Int) ^ 1 * 100270668295754449100 ^ 2 ≤
        100542883523319026600 ^ 1 * 100000000000000000000 ^ 2 := by
  have hmargin : 10 ^ 29 ≤ (dustPool.part ⟨"a", .ofInt 100, ⟨1⟩, 18⟩).raw *
      (dustPool.depositFee ⟨"a", .ofInt 100, ⟨1⟩, 18⟩ dustPool.swapFee).raw := by
    decide +kernel
  exact ⟨(dilution_le_of_joinWith dustPool_valid rfl joinWith_dilutingCoin).1,
    (dilution_le_of_joinWith dustPool_valid rfl joinWith_payingCoin).2.2 hmargin⟩

/-- **A deposit that dilutes**: of a valid pool, without a fee. -/
theorem dilutingCoin_dilutes : ∃ (p : Pool) (coin : Coin) (fee : Fixed) (a : Asset) (j : Join),
    p.Valid ∧ p.asset coin.denom = .ok a ∧ 0 < a.balance.raw ∧ 0 < coin.amount.raw ∧ fee.IsFee ∧
      p.joinWith coin fee = .ok j ∧
      (a.balance.raw + coin.amount.raw) ^ a.weight.raw.toNat *
          p.totalShares.raw ^ p.totalWeight.raw.toNat <
        a.balance.raw ^ a.weight.raw.toNat *
          (p.totalShares.raw + j.shares.raw) ^ p.totalWeight.raw.toNat :=
  ⟨dustPool, dilutingCoin, .zero, ⟨"a", .ofInt 100, ⟨1⟩, 18⟩, dilutingJoin, dustPool_valid, rfl, by decide,
    by decide, by decide, joinWith_dilutingCoin, by decide +kernel⟩

end Pool

end WeightedMarket
