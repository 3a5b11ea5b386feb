/-
  What a swap does to the weighted invariant.

  The invariant of a pool is the product of its reserves, each to the power of its weight.  On the
  curve a swap would keep it, and whatever a sale rounds down in what it pays stays in the pool.  Two
  roundings go the other way: the ratio of the source's reserves is truncated, and so are the products
  and terms of its power.  What these are worth is counted in raw units of the two reserves,
  `Asset.ratioSlack` and `Asset.powerSlack`, and apart from them no swap lowers the invariant
  (`Asset.Sale.invariant_le`).  They matter where little is sold to a large reserve (`sellDust`).

  The weights are raw values and stand as integer exponents; their quotient is truncated too, but that
  only keeps more of the target's reserve.
-/
import WeightedMarket.Proofs.Power.Below
import WeightedMarket.Proofs.Reserves

namespace WeightedMarket

open Decision

/-! ## Raw units -/

namespace Fixed

/-- The least number of raw units that covers `n` parts of them, of which `scale` make one. -/
def ceilUnits (n : Int) : Int := -(-n / scale)

theorem le_ceilUnits_mul (n : Int) : n ≤ ceilUnits n * scale := by
  have := Int.ediv_mul_le (-n) (b := scale) (by decide)
  rw [ceilUnits, Int.neg_mul]
  omega

theorem ceilUnits_le {n m : Int} (h : n ≤ m * scale) : ceilUnits n ≤ m := by
  have : -m ≤ -n / scale := by
    rw [Int.le_ediv_iff_mul_le scale_pos, Int.neg_mul]
    omega
  rw [ceilUnits]
  omega

end Fixed

/-! ## On the curve -/

/-- If the one reserve is at most the ratio `q` of what it becomes, and the other becomes at least the
power of `q` of itself that the weights ask for, then their weighted product does not fall. -/
theorem weighted_mul_le {q x x' y y' : ℝ} {m n : ℕ} (hq : 0 < q) (hn : n ≠ 0) (hx : 0 ≤ x) (hy : 0 ≤ y)
    (hx' : 0 ≤ x') (hsource : x ≤ q * x') (htarget : y * q ^ ((m : ℝ) / n) ≤ y') :
    x ^ m * y ^ n ≤ x' ^ m * y' ^ n := by
  have hpower : (q ^ ((m : ℝ) / n)) ^ n = q ^ m := by
    rw [← Real.rpow_natCast, ← Real.rpow_natCast, ← Real.rpow_mul hq.le,
      div_mul_cancel₀ _ (Nat.cast_ne_zero.mpr hn)]
  have hcurve : 0 ≤ y * q ^ ((m : ℝ) / n) := mul_nonneg hy (Real.rpow_nonneg hq.le _)
  calc x ^ m * y ^ n ≤ (q * x') ^ m * y ^ n :=
        mul_le_mul_of_nonneg_right (pow_le_pow_left₀ hx hsource m) (pow_nonneg hy n)
    _ = x' ^ m * (y * q ^ ((m : ℝ) / n)) ^ n := by
        rw [mul_pow, mul_pow, hpower]
        ring
    _ ≤ x' ^ m * y' ^ n :=
        mul_le_mul_of_nonneg_left (pow_le_pow_left₀ hcurve htarget n) (pow_nonneg hx' m)

/-! ## Roundings of a sale -/

namespace Asset

open Fixed

/-- The ratio of the source's reserves before and after a sale, whose power the sale asks for. -/
def saleRatio (source : Asset) (amount fee : Fixed) : Fixed :=
  source.balance.quo (source.replenished amount fee)

/-- What the truncation of the ratio is worth, in raw units of the source's reserve: nothing if the
ratio is exact, and never more than one unit for every `scale` units of the replenished reserve. -/
def ratioSlack (source : Asset) (amount fee : Fixed) : Int :=
  ceilUnits (source.balance.raw * scale % (source.replenished amount fee).raw)

/-- What the power can be short by, in raw units of the target's reserve. -/
def powerSlack (source target : Asset) (amount fee : Fixed) : Int :=
  ceilUnits (target.balance.raw *
    powerUnits (source.saleRatio amount fee) (source.weight.quo target.weight))

namespace Sale

variable {source target : Asset} {amount fee power out : Fixed}

/-- The fee only lowers what the source is replenished with. -/
theorem replenished_bounds (h : source.Sale target amount fee power out) (hamount : 0 ≤ amount.raw) :
    source.balance.raw ≤ (source.replenished amount fee).raw ∧
      (source.replenished amount fee).raw ≤ source.balance.raw + amount.raw := by
  obtain ⟨hkept, hle⟩ := h.isFee.kept_bounds hamount
  have heq : (source.replenished amount fee).raw =
      source.balance.raw + (amount.mul (one - fee)).raw := rfl
  omega

/-- A sale never raises the ratio above one. -/
theorem saleRatio_le_scale (h : source.Sale target amount fee power out)
    (hnonneg : 0 ≤ source.balance.raw) (hamount : 0 ≤ amount.raw) :
    (source.saleRatio amount fee).raw ≤ scale :=
  raw_quo_le_scale hnonneg h.replenished_pos (h.replenished_bounds hamount).1

/-- The source's reserve, less what the truncation is worth, is what the truncated ratio stands for. -/
theorem balance_sub_ratioSlack_le (h : source.Sale target amount fee power out)
    (hnonneg : 0 ≤ source.balance.raw) :
    0 ≤ source.balance.raw - source.ratioSlack amount fee ∧
      (source.balance.raw - source.ratioSlack amount fee) * scale ≤
        (source.saleRatio amount fee).raw * (source.replenished amount fee).raw := by
  have hpos := h.replenished_pos
  have hscaled : 0 ≤ source.balance.raw * scale := Int.mul_nonneg hnonneg (Int.le_of_lt scale_pos)
  have hratio : (source.saleRatio amount fee).raw =
      source.balance.raw * scale / (source.replenished amount fee).raw :=
    Int.tdiv_eq_ediv_of_nonneg hscaled
  have hdivision := Int.ediv_mul_add_emod (source.balance.raw * scale) (source.replenished amount fee).raw
  have hslack := le_ceilUnits_mul (source.balance.raw * scale % (source.replenished amount fee).raw)
  constructor
  · have hle : source.ratioSlack amount fee ≤ source.balance.raw := by
      refine ceilUnits_le ?_
      have := Int.mul_nonneg (Int.ediv_nonneg hscaled (Int.le_of_lt hpos)) (Int.le_of_lt hpos)
      omega
    omega
  · rw [hratio, Int.sub_mul, ratioSlack]
    omega

/-- The slack is never more than a unit for every `scale` units of the replenished reserve. -/
theorem ratioSlack_le (h : source.Sale target amount fee power out) :
    source.ratioSlack amount fee ≤ ceilUnits (source.replenished amount fee).raw := by
  have hremainder := Int.emod_lt_of_pos (source.balance.raw * scale) h.replenished_pos
  have hunits := le_ceilUnits_mul (source.replenished amount fee).raw
  exact ceilUnits_le (by omega)

/-- What stays of the target's reserve, and the power's slack, is at least what the curve asks for. -/
theorem curve_le (h : source.Sale target amount fee power out) (hsource : source.Valid)
    (htarget : target.Valid) (hamount : 0 ≤ amount.raw) :
    (target.balance.raw : ℝ) * (source.saleRatio amount fee).val ^
        ((source.weight.raw : ℝ) / target.weight.raw) ≤
      ((target.balance.raw - out.raw + source.powerSlack target amount fee : Int) : ℝ) := by
  have hratioPos : 0 < (source.saleRatio amount fee).raw := (raise_eq_ok h.power_eq).1
  have hratioLe := h.saleRatio_le_scale hsource.balance_nonneg hamount
  have hpower := power_le_raise hratioLe h.power_eq
  have hexponent := Real.rpow_le_rpow_of_exponent_ge (val_pos.mpr hratioPos) (val_le_one.mpr hratioLe)
    (val_quo_le_ratio (Int.le_of_lt hsource.weight_pos) htarget.weight_pos)
  have hbalance : (0 : ℝ) ≤ target.balance.raw := by exact_mod_cast htarget.balance_nonneg
  -- the power keeps a part of the reserve, and its units are worth the slack
  have hkept : (target.balance.raw : ℝ) * power.val ≤ (target.balance.raw - out.raw : Int) := by
    have := (h.power_mul_le htarget.balance_nonneg).2
    rw [val, ← mul_div_assoc, div_le_iff₀ scale_cast_pos]
    exact_mod_cast this
  have hslack : (target.balance.raw : ℝ) *
      (powerUnits (source.saleRatio amount fee) (source.weight.quo target.weight) * ulp) ≤
        source.powerSlack target amount fee := by
    have := le_ceilUnits_mul (target.balance.raw *
      powerUnits (source.saleRatio amount fee) (source.weight.quo target.weight))
    rw [ulp, mul_one_div, ← mul_div_assoc, div_le_iff₀ scale_cast_pos, powerSlack]
    exact_mod_cast this
  have hscaled := mul_le_mul_of_nonneg_left (hexponent.trans hpower) hbalance
  rw [Int.cast_add]
  linarith

/-- The source's reserve, less the ratio's slack, is at most the ratio of what it holds afterwards. -/
theorem source_le (h : source.Sale target amount fee power out) (hsource : source.Valid)
    (hamount : 0 ≤ amount.raw) :
    ((source.balance.raw - source.ratioSlack amount fee : Int) : ℝ) ≤
      (source.saleRatio amount fee).val * ((source.balance.raw + amount.raw : Int) : ℝ) := by
  have hratio := (h.balance_sub_ratioSlack_le hsource.balance_nonneg).2
  have hscaled : ((source.balance.raw - source.ratioSlack amount fee : Int) : ℝ) ≤
      (source.saleRatio amount fee).val * (source.replenished amount fee).raw := by
    rw [val, div_mul_eq_mul_div, le_div_iff₀ scale_cast_pos]
    exact_mod_cast hratio
  have hgrown : ((source.replenished amount fee).raw : ℝ) ≤
      ((source.balance.raw + amount.raw : Int) : ℝ) := by
    exact_mod_cast (h.replenished_bounds hamount).2
  have hq : 0 ≤ (source.saleRatio amount fee).val := (val_pos.mpr (raise_eq_ok h.power_eq).1).le
  exact hscaled.trans (mul_le_mul_of_nonneg_left hgrown hq)

/-- **No sale lowers the product of its two reserves** but for its roundings. -/
theorem invariant_le (h : source.Sale target amount fee power out) (hsource : source.Valid)
    (htarget : target.Valid) (hamount : 0 ≤ amount.raw) {given : Int} (hgiven : given ≤ out.raw) :
    (source.balance.raw - source.ratioSlack amount fee) ^ source.weight.raw.toNat *
        target.balance.raw ^ target.weight.raw.toNat ≤
      (source.balance.raw + amount.raw) ^ source.weight.raw.toNat *
        (target.balance.raw - given + source.powerSlack target amount fee) ^
          target.weight.raw.toNat := by
  have hlowered := (h.balance_sub_ratioSlack_le hsource.balance_nonneg).1
  have hpaid := Int.add_nonneg hsource.balance_nonneg hamount
  have hin : ((source.weight.raw.toNat : ℕ) : ℝ) = source.weight.raw := by
    exact_mod_cast Int.toNat_of_nonneg (Int.le_of_lt hsource.weight_pos)
  have hout : ((target.weight.raw.toNat : ℕ) : ℝ) = target.weight.raw := by
    exact_mod_cast Int.toNat_of_nonneg (Int.le_of_lt htarget.weight_pos)
  have hweight : target.weight.raw.toNat ≠ 0 := by
    have := htarget.weight_pos
    omega
  -- less than was computed is given away, so more stays
  have hleft : (target.balance.raw : ℝ) * (source.saleRatio amount fee).val ^
      ((source.weight.raw.toNat : ℝ) / target.weight.raw.toNat) ≤
        ((target.balance.raw - given + source.powerSlack target amount fee : Int) : ℝ) := by
    rw [hin, hout]
    refine (h.curve_le hsource htarget hamount).trans ?_
    exact_mod_cast (show target.balance.raw - out.raw + source.powerSlack target amount fee ≤
      target.balance.raw - given + source.powerSlack target amount fee by omega)
  have hproduct := weighted_mul_le (val_pos.mpr (raise_eq_ok h.power_eq).1) hweight
    (by exact_mod_cast hlowered) (by exact_mod_cast htarget.balance_nonneg)
    (by exact_mod_cast hpaid) (h.source_le hsource hamount) hleft
  exact_mod_cast hproduct

end Sale

end Asset

/-! ## The invariant of a pool -/

/-- Products over a list that differ in two places. -/
theorem prod_map_le_of_pair {α : Type} [DecidableEq α] {l : List α} (hl : l.Nodup) {f g : α → Int}
    {a b : α} (ha : a ∈ l) (hb : b ∈ l) (hne : b ≠ a) (hpair : f a * f b ≤ g a * g b)
    (hrest : ∀ c ∈ l, c ≠ a → c ≠ b → 0 ≤ f c ∧ f c = g c) : (l.map f).prod ≤ (l.map g).prod := by
  -- take the two places out of both products
  have hb' : b ∈ l.erase a := (List.mem_erase_of_ne hne).mpr hb
  have hothers : ∀ c ∈ (l.erase a).erase b, 0 ≤ f c ∧ f c = g c := by
    intro c hc
    obtain ⟨hcb, hc⟩ := (hl.erase a).mem_erase_iff.mp hc
    obtain ⟨hca, hc⟩ := hl.mem_erase_iff.mp hc
    exact hrest c hc hca hcb
  have hnonneg : 0 ≤ (((l.erase a).erase b).map f).prod := by
    refine List.prod_nonneg ?_
    intro n hn
    obtain ⟨c, hc, rfl⟩ := List.mem_map.mp hn
    exact (hothers c hc).1
  have hsame : ((l.erase a).erase b).map f = ((l.erase a).erase b).map g :=
    List.map_congr_left fun c hc => (hothers c hc).2
  rw [← List.prod_map_erase f ha, ← List.prod_map_erase f hb', ← List.prod_map_erase g ha,
    ← List.prod_map_erase g hb', ← mul_assoc, ← mul_assoc, ← hsame]
  exact mul_le_mul_of_nonneg_right hpair hnonneg

namespace Pool

variable {p q : Pool}

/-- The product of the reserves, each to the power of its weight. -/
def invariant (p : Pool) : Int := (p.assets.map fun a => a.balance.raw ^ a.weight.raw.toNat).prod

/-- The pool with the reserve of one denomination counted some raw units higher. -/
def adjusted (p : Pool) (denom : String) (units : Int) : Pool :=
  p.shifted (fun d => if d = denom then units else 0) 0

theorem invariant_shifted (reserves : String → Int) (supply : Int) :
    (p.shifted reserves supply).invariant =
      (p.assets.map fun a => (a.balance.raw + reserves a.denom) ^ a.weight.raw.toNat).prod := by
  simp [invariant, shifted, Function.comp_def]

/-- A trade whose two reserves keep their product, but for some units, keeps the invariant but for the
same units. -/
theorem invariant_trade {taken given : Coin} {source target : Asset} {lowered raised : Int}
    (hp : p.Valid) (hne : taken.denom ≠ given.denom) (hsource : p.asset taken.denom = .ok source)
    (htarget : p.asset given.denom = .ok target) (htrade : p.trade taken given = .ok q)
    (h : (source.balance.raw - lowered) ^ source.weight.raw.toNat *
        target.balance.raw ^ target.weight.raw.toNat ≤
      (source.balance.raw + taken.amount.raw) ^ source.weight.raw.toNat *
        (target.balance.raw - given.amount.raw + raised) ^ target.weight.raw.toNat) :
    (p.adjusted taken.denom (-lowered)).invariant ≤ (q.adjusted given.denom raised).invariant := by
  obtain ⟨_, rfl⟩ := trade_eq_ok hp htrade
  obtain ⟨hsmem, hsdenom⟩ := mem_of_asset hsource
  obtain ⟨htmem, htdenom⟩ := mem_of_asset htarget
  have hdenoms : source.denom ≠ target.denom := by rwa [hsdenom, htdenom]
  have hstaged : ((p.shifted (fun d => Coin.total [taken] d - Coin.total [given] d) 0).adjusted
      given.denom raised).invariant =
        (p.assets.map fun a => (a.balance.raw + (Coin.total [taken] a.denom - Coin.total [given] a.denom) +
          if a.denom = given.denom then raised else 0) ^ a.weight.raw.toNat).prod := by
    rw [adjusted, invariant_shifted]
    simp [shifted, Function.comp_def]
  rw [hstaged, adjusted, invariant_shifted]
  refine prod_map_le_of_pair (List.Nodup.of_map _ hp.nodup) hsmem htmem ?_ ?_ ?_
  · rintro rfl
    exact hdenoms rfl
  · simp only [Coin.total_cons, Coin.total_nil, hsdenom, htdenom, if_true, hne, hne.symm, if_false,
      Int.add_zero, Int.sub_zero, Int.zero_sub, ← Int.sub_eq_add_neg]
    exact h
  · intro a ha hsne htne
    have hin : a.denom ≠ taken.denom := fun heq => hsne (hp.eq_of_denom ha hsmem (heq.trans hsdenom.symm))
    have hout : a.denom ≠ given.denom := fun heq => htne (hp.eq_of_denom ha htmem (heq.trans htdenom.symm))
    simp only [Coin.total_cons, Coin.total_nil, hin, hin.symm, hout, hout.symm, if_false, Int.add_zero,
      Int.sub_zero]
    exact ⟨Int.pow_nonneg (hp.assets a ha).balance_nonneg, trivial⟩

/-! ## Swaps -/

/-- **No swap lowers the invariant** but for its roundings.  A request that is committed and swaps
takes one coin and gives another, and the product of the reserves that it stages, with the reserve that
pays counted higher by what the power can be short by, is at least that of the pool that it has found,
with the reserve that is paid counted lower by what the truncation of the ratio is worth. -/
theorem invariant_le_of_swap {m m' : Market} {r : Request} {plan : Plan} (hp : p.Valid)
    (hload : m.repository.load r.pool = .ok p) (hattempt : Market.attempt r m = (.ok plan, m'))
    (hswap : plan.event.kind = .swap) :
    ∃ taken given source target, plan.event.paid = [taken] ∧ plan.event.received = [given] ∧
      taken.denom ≠ given.denom ∧ p.asset taken.denom = .ok source ∧
      p.asset given.denom = .ok target ∧
      (p.adjusted taken.denom (-source.ratioSlack taken.amount p.swapFee)).invariant ≤
        (plan.pool.adjusted given.denom
          (source.powerSlack target taken.amount p.swapFee)).invariant := by
  cases Market.planned_of_attempt hattempt with
  | @swapIn sender pool coin denomOut minimum p' source target out staged sides sale enough trade =>
    cases sides.load.symm.trans hload
    obtain ⟨power, hsale⟩ := Asset.amountOut_eq_ok sale
    have hsource := hp.assets _ (mem_of_asset sides.source).1
    have htarget := hp.assets _ (mem_of_asset sides.target).1
    refine ⟨coin, ⟨denomOut, out⟩, source, target, rfl, rfl, sides.denom_ne, sides.source, sides.target, ?_⟩
    refine invariant_trade hp sides.denom_ne sides.source sides.target trade ?_
    exact hsale.invariant_le hsource htarget (Int.le_of_lt sides.traded_pos) (Int.le_refl _)
  | @swapOut sender pool denomIn maximum coin p' source target charged out staged sides available
      charged_pos sale enough within trade =>
    cases sides.load.symm.trans hload
    obtain ⟨power, hsale⟩ := Asset.amountOut_eq_ok sale
    have hsource := hp.assets _ (mem_of_asset sides.source).1
    have htarget := hp.assets _ (mem_of_asset sides.target).1
    refine ⟨⟨denomIn, charged⟩, coin, source, target, rfl, rfl, sides.denom_ne, sides.source,
      sides.target, ?_⟩
    refine invariant_trade hp sides.denom_ne sides.source sides.target trade ?_
    exact hsale.invariant_le hsource htarget (Int.le_of_lt charged_pos) (Fixed.le_def.mp enough)
  | join load active joins enough => cases hswap
  | exit load exits => cases hswap

/-! ## A sale that lowers the invariant -/

/-- A pool of a hundred coins and forty, with equal weights of one raw unit and a swap fee of three
parts in a thousand. -/
def dustPool : Pool where
  id := 1
  assets := [⟨"a", .ofInt 100, ⟨1⟩, 18⟩, ⟨"b", .ofInt 40, ⟨1⟩, 18⟩]
  totalShares := .ofInt 100
  swapFee := ⟨3000000000000000⟩
  exitFee := .zero
  window := none
  shareDecimals := 18

theorem dustPool_valid : dustPool.Valid := by decide

/-- Two raw units are sold to `dustPool`, one of them for the fee. -/
def sellDust : Request := ⟨"alice", 1, .swapIn ⟨"a", ⟨2⟩⟩ "b" .zero⟩

/-- The plan of `sellDust`.  The ratio falls short of one by a whole raw unit, which a reserve of forty
coins makes forty of. -/
def sellDustPlan : Plan where
  pool := { dustPool with
    assets := [⟨"a", ⟨100000000000000000002⟩, ⟨1⟩, 18⟩, ⟨"b", ⟨39999999999999999960⟩, ⟨1⟩, 18⟩] }
  event := ⟨.swap, 1, "alice", [⟨"a", ⟨2⟩⟩], [⟨"b", ⟨40⟩⟩]⟩
  receipt := .amount ⟨40⟩

/-- A market that keeps `dustPool`. -/
def dustMarket : Market :=
  Market.keeping [dustPool]
    ((Ledger.empty.mint "alice" ⟨"a", ⟨2⟩⟩).mint dustPool.address ⟨"b", .ofInt 40⟩) none

theorem attempt_sellDust : (Market.attempt sellDust dustMarket).1 = .ok sellDustPlan := by
  decide +kernel

/-- The slack of `sellDust` is a hundred raw units of the one reserve, and none of the other. -/
theorem sellDust_invariant_le : (dustPool.adjusted "a" (-100)).invariant ≤
    (sellDustPlan.pool.adjusted "b" 0).invariant := by
  obtain ⟨taken, given, source, target, htaken, hgiven, _, hsource, htarget, hle⟩ :=
    invariant_le_of_swap dustPool_valid (show dustMarket.repository.load sellDust.pool = _ from rfl)
      (Prod.ext attempt_sellDust rfl) rfl
  cases htaken
  cases hgiven
  cases hsource
  cases htarget
  have hratio : Asset.ratioSlack ⟨"a", .ofInt 100, ⟨1⟩, 18⟩ ⟨2⟩ ⟨3000000000000000⟩ = 100 := by decide +kernel
  have hpower : Asset.powerSlack ⟨"a", .ofInt 100, ⟨1⟩, 18⟩ ⟨"b", .ofInt 40, ⟨1⟩, 18⟩ ⟨2⟩
      ⟨3000000000000000⟩ = 0 := by
    decide +kernel
  rw [← hratio, ← hpower]
  exact hle

/-- A valid pool, and a committed sale that lowers its invariant. -/
theorem sellDust_invariant_lt : dustPool.Valid ∧ ∃ m m' plan,
    m.repository.load sellDust.pool = .ok dustPool ∧ Market.attempt sellDust m = (.ok plan, m') ∧
      plan.event.kind = .swap ∧ plan.pool.invariant < dustPool.invariant :=
  ⟨dustPool_valid, dustMarket, _, sellDustPlan, rfl, Prod.ext attempt_sellDust rfl, rfl, by
    decide +kernel⟩

end Pool

end WeightedMarket
