/-
  Why the engine refuses.

  Division guards stand in many places: before a ratio of balances, a quotient of weights, the inverse
  of a power, a fee's complement, a price.  Whatever is asked of a valid pool, one of them refuses with
  a cause of the engine before anything is divided by zero, truncated to a precision that does not
  exist, or summed for too long.

  A decision that refuses only so is said to report (`Reports`).  Decisions that report are closed
  under sequences and walks over lists, so each function has one lemma, which follows its body and
  adds what the checks before a partial step have established for it.

  A cause whose message cannot be written is replaced by what writing it is refused with.  For an amount
  this is the overflow of the decimal context; for the number of the pool it is the limit on the digits of
  integers (`unnamedPool_unreported`).  So `Reports` says which numbers a message may name: the curve, the
  fees and a deposit of a coin that the pool holds name none.
-/
import WeightedMarket.Proofs.Deposit
import WeightedMarket.Proofs.Power.Answers
import WeightedMarket.Proofs.Purchase
import WeightedMarket.Proofs.Text.Integers

namespace WeightedMarket

open Decision

/-! ## Reported failures -/

namespace Failure

/-- The failure is of one of the engine's own kinds, not of a series that was given up, and its message
shows no integers but the given ones. -/
structure IsCause (ids : List Int) (f : Failure) : Prop where
  kind : (f.isEngine && f.kind != .powDidNotConverge) = true
  numbers : f.numbers ⊆ ids

/-- What the engine may refuse with, where its messages name the given numbers: a cause of its own; the
overflow of the decimal context, where the message of such a cause would show an amount with more than a
million digits before the point; or the refusal to write one of the numbers, where it would name that. -/
inductive Reported (ids : List Int) : Failure → Prop
  | raised {f : Failure} (cause : f.IsCause ids) (written : f.settled = f) : Reported ids f
  | unwritten {f : Failure} {a : Fixed} (cause : f.IsCause ids) (shown : a ∈ f.shown)
      (large : 10 ^ Fixed.maxDigits ≤ a.raw.natAbs) : Reported ids .overflow
  | unnamed {f : Failure} {id : Int} (cause : f.IsCause ids) (mem : id ∈ f.numbers)
      (long : ¬ Text.IsWritable id) : Reported ids .longInteger

variable {ids : List Int} {f : Failure}

/-- A cause whose message shows no integer is one, whatever numbers may be named. -/
theorem IsCause.plain (hkind : (f.isEngine && f.kind != .powDidNotConverge) = true)
    (hnumbers : f.numbers = []) : f.IsCause ids :=
  ⟨hkind, hnumbers ▸ List.nil_subset ids⟩

/-- A cause whose message shows one integer names it. -/
theorem IsCause.naming {id : Int} (hkind : (f.isEngine && f.kind != .powDidNotConverge) = true)
    (hnumbers : f.numbers = [id]) : f.IsCause [id] :=
  ⟨hkind, hnumbers ▸ List.Subset.refl _⟩

/-- An amount is not printed if it has more than a million digits before the point. -/
theorem le_natAbs_of_not_printable {a : Fixed} (h : ¬ a.printable) :
    10 ^ Fixed.maxDigits ≤ a.raw.natAbs := by
  rw [Fixed.printable, Bool.or_eq_true, not_or, decide_eq_true_iff, decide_eq_true_iff] at h
  -- the bound is not to be computed
  generalize Fixed.maxDigits = digits at h ⊢
  exact Nat.le_of_not_lt h.2

/-- A cause of the engine is reported, or else it is reported why it cannot be. -/
theorem reported_settled (h : f.IsCause ids) : f.settled.Reported ids := by
  by_cases hshown : f.shown.all Fixed.printable
  · by_cases hnumbers : f.numbers.all fun n => decide (Text.IsWritable n)
    · have hsettled : f.settled = f := by rw [settled, if_pos hshown, if_pos hnumbers]
      rw [hsettled]
      exact .raised h hsettled
    · rw [settled, if_pos hshown, if_neg hnumbers]
      simp only [List.all_eq_true, decide_eq_true_iff, not_forall] at hnumbers
      obtain ⟨id, hmem, hlong⟩ := hnumbers
      exact .unnamed h hmem hlong
  · rw [settled, if_neg hshown]
    rw [List.all_eq_true] at hshown
    push Not at hshown
    obtain ⟨a, ha, hprints⟩ := hshown
    exact .unwritten h ha (le_natAbs_of_not_printable hprints)

/-- A reported failure is none of those that the host raises by itself, unless one of the numbers is too
long to be written. -/
theorem Reported.kind_ne (h : f.Reported ids) : f.kind ≠ .zeroDivision ∧ f.kind ≠ .type ∧
    f.kind ≠ .powDidNotConverge ∧ ((∀ id ∈ ids, Text.IsWritable id) → f.kind ≠ .value) := by
  cases h with
  | unwritten => exact ⟨nofun, nofun, nofun, nofun⟩
  | unnamed hcause hmem hlong =>
    exact ⟨nofun, nofun, nofun, fun hids => absurd (hids _ (hcause.numbers hmem)) hlong⟩
  | raised hcause =>
    have hkind := hcause.kind
    refine ⟨?_, ?_, ?_, fun _ => ?_⟩ <;> intro heq <;> rw [isEngine, heq] at hkind <;>
      exact absurd hkind (by decide)

end Failure

/-! ## Decisions that report -/

namespace Decision

variable {α β : Type} {ids : List Int} {f : Failure}

/-- Whatever the decision refuses with is reported, with messages that name the given numbers. -/
abbrev Reports (ids : List Int) (x : Except Failure α) : Prop := RefusesOnly (Failure.Reported ids) x

/-- A refusal with a cause reports. -/
theorem reports_refuse (h : f.IsCause ids) : Reports ids (refuse f : Except Failure α) :=
  refusesOnly_refuse (Failure.reported_settled h)

theorem reports_require {c : Bool} (h : f.IsCause ids) : Reports ids (require c f) :=
  refusesOnly_require fun _ => Failure.reported_settled h

/-- What follows a check may rely on its condition. -/
theorem reports_require_bind {c : Bool} {rest : Unit → Except Failure β} (h : f.IsCause ids)
    (hrest : c = true → Reports ids (rest ())) : Reports ids (require c f >>= rest) :=
  refusesOnly_bind (reports_require h) fun _ hc => hrest (require_eq_ok.mp hc)

end Decision

variable {ids : List Int}

/-! ## Partial operations inside their domain -/

namespace Fixed

/-- Only a divisor of zero is objected to. -/
theorem reports_divide {a b : Fixed} (h : b.raw ≠ 0) : Reports ids (a.divide b) := by
  rw [divide_eq_ok h]
  exact refusesOnly_ok _

/-- Only a precision that does not exist is objected to. -/
theorem reports_truncate {decimals : Int} (h : IsPrecision decimals) (a : Fixed) :
    Reports ids (a.truncate decimals) := by
  rw [truncate_of_isPrecision h]
  exact refusesOnly_ok _

/-- Only the signs of the base and of the exponent are objected to. -/
theorem reports_raise (base exponent : Fixed) : Reports ids (base.raise exponent) := by
  refine reports_require_bind (.plain rfl rfl) fun hbase => ?_
  refine reports_require_bind (.plain rfl rfl) fun _ => ?_
  have hpower := exists_fractionalPower (of_decide_eq_true hbase) exponent.fraction_nonneg
    (Int.le_of_lt exponent.fraction_lt)
  dsimp only
  split
  · exact refusesOnly_pure _
  · obtain ⟨power, hpower⟩ := hpower
    rw [fraction] at hpower
    rw [hpower, ok_bind]
    exact refusesOnly_pure _

end Fixed

/-! ## The curve and the fees -/

/-- **The curve** objects to balances and weights that are not positive before it divides by them. -/
theorem Curve.reports_delta (before after fixedWeight other otherWeight : Fixed) :
    Reports ids (delta before after fixedWeight other otherWeight) := by
  refine reports_require_bind (.plain rfl rfl) fun hafter => ?_
  refine reports_require_bind (.plain rfl rfl) fun hweight => ?_
  have hafter := of_decide_eq_true hafter
  have hweight := of_decide_eq_true hweight
  refine refusesOnly_bind (Fixed.reports_divide (Int.ne_of_gt hweight)) fun exponent _ => ?_
  refine refusesOnly_bind (Fixed.reports_divide (Int.ne_of_gt hafter)) fun ratio _ => ?_
  exact refusesOnly_bind (ratio.reports_raise exponent) fun power _ => refusesOnly_pure _

namespace Fee

/-- A fee that is no proportion below one is objected to by its own cause. -/
theorem reports_check (fee : Fixed) : Reports ids (check fee) := reports_require (.plain rfl rfl)

theorem reports_complement (fee : Fixed) : Reports ids (complement fee) :=
  refusesOnly_bind (reports_check fee) fun _ _ => refusesOnly_pure _

/-- A complement that was answered is not zero. -/
theorem complement_ne_zero {fee rest : Fixed} (h : complement fee = .ok rest) : rest.raw ≠ 0 := by
  obtain ⟨hfee, rfl⟩ := complement_eq_ok.mp h
  exact hfee.complement_pos.ne'

theorem reports_afterFee (amount fee : Fixed) : Reports ids (afterFee amount fee) :=
  refusesOnly_bind (reports_complement fee) fun _ _ => refusesOnly_pure _

/-- A fee is taken out of the kept part of an amount only, which is not zero. -/
theorem reports_grossUp (amount fee : Fixed) : Reports ids (grossUp amount fee) :=
  refusesOnly_bind (reports_complement fee) fun _ hrest =>
    Fixed.reports_divide (complement_ne_zero hrest)

end Fee

/-! ## Trades -/

namespace Asset

/-- **Selling** asks for the fee, the curve and the precision of what is paid out, in this order. -/
theorem reports_amountOut {target : Asset} (h : target.Valid) (source : Asset) (amount fee : Fixed) :
    Reports ids (source.amountOut target amount fee) := by
  refine refusesOnly_bind (Fee.reports_afterFee amount fee) fun kept _ => ?_
  refine refusesOnly_bind (Curve.reports_delta _ _ _ _ _) fun delta _ => ?_
  refine refusesOnly_bind (Fixed.reports_truncate h.decimals delta) fun out _ => ?_
  exact reports_require_bind (.plain rfl rfl) fun _ => refusesOnly_pure out

/-- **Buying** finds its way back along the curve in the same way, once the reserve is seen to be enough. -/
theorem reports_amountIn {source : Asset} (h : source.Valid) (target : Asset) (amount fee : Fixed) :
    Reports ids (target.amountIn source amount fee) := by
  refine reports_require_bind (.plain rfl rfl) fun _ => ?_
  refine refusesOnly_bind (Curve.reports_delta _ _ _ _ _) fun delta _ => ?_
  refine refusesOnly_bind (Fee.reports_grossUp (-delta) fee) fun gross _ => ?_
  refine refusesOnly_bind (Fixed.reports_truncate h.decimals gross) fun paid _ => ?_
  exact reports_require_bind (.plain rfl rfl) fun _ => refusesOnly_pure paid

theorem reports_checked (a : Asset) : Reports ids a.checked :=
  refusesOnly_checked fun _ hnumbers => .raised (.plain rfl hnumbers) (settled_of_plain rfl hnumbers)

end Asset

namespace Pool

/-- The rules of pools name the pool that breaks them. -/
theorem reports_checked (p : Pool) : Reports [p.id] p.checked :=
  refusesOnly_checked (fun _ hnumbers => Failure.reported_settled (.naming rfl hnumbers))
    (Failure.reported_settled (.plain rfl rfl)) (Failure.reported_settled (.plain rfl rfl))

/-- A denomination that the pool does not have is refused in its name. -/
theorem asset_eq_error_of_notMem {p : Pool} {denom : String} (h : denom ∉ p.denoms) :
    p.asset denom = .error (Failure.unknownDenom p.id denom).settled := by
  cases hasset : p.asset denom with
  | ok a => exact absurd (mem_denoms_of_asset hasset) h
  | error f =>
    unfold asset at hasset
    split at hasset
    · cases hasset
    · exact hasset.symm

/-- A pool reports a denomination that it does not hold, naming itself. -/
theorem reports_asset (p : Pool) (denom : String) : Reports [p.id] (p.asset denom) := by
  unfold asset
  split
  · exact refusesOnly_ok _
  · exact reports_refuse (.naming rfl rfl)

/-- New balances are refused in words of the assets or of the pool. -/
theorem reports_withBalances (p : Pool) (balances : List (String × Fixed)) :
    Reports [p.id] (p.withBalances balances) := by
  refine refusesOnly_bind ?_ fun _ _ => ?_
  · exact refusesOnly_forM fun b _ => refusesOnly_discard (p.reports_asset b.1)
  refine refusesOnly_bind ?_ fun assets _ => reports_checked _
  exact refusesOnly_mapM fun a _ => (rebalanced balances a).reports_checked

theorem reports_withTotalShares (p : Pool) (shares : Fixed) :
    Reports [p.id] (p.withTotalShares shares) :=
  reports_checked _

/-- The two sides of a trade are different assets of the pool. -/
theorem reports_sides (p : Pool) (denomIn denomOut : String) :
    Reports [p.id] (p.sides denomIn denomOut) := by
  refine reports_require_bind (.plain rfl rfl) fun _ => ?_
  refine refusesOnly_bind (p.reports_asset denomIn) fun source _ => ?_
  exact refusesOnly_bind (p.reports_asset denomOut) fun target _ => refusesOnly_pure (source, target)

/-- **A trade** objects to its sides and to a reserve below zero, whatever amounts are traded. -/
theorem reports_trade (p : Pool) (taken given : Coin) : Reports [p.id] (p.trade taken given) := by
  refine refusesOnly_bind (p.reports_sides taken.denom given.denom) ?_
  rintro ⟨source, target⟩ _
  exact reports_require_bind (.plain rfl rfl) fun _ => p.reports_withBalances _

section

variable {p : Pool} (hp : p.Valid)

include hp

theorem Valid.valid_of_asset {denom : String} {a : Asset} (h : p.asset denom = .ok a) : a.Valid :=
  hp.assets a (mem_of_asset h).1

/-- A sale is refused by the pool, by the trade or by the curve. -/
theorem reports_quoteSale (coin : Coin) (denomOut : String) (fee : Fixed) :
    Reports [p.id] (p.quoteSale coin denomOut fee) := by
  refine refusesOnly_bind (p.reports_sides coin.denom denomOut) ?_
  rintro ⟨source, target⟩ hsides
  obtain ⟨_, _, htarget⟩ := sides_eq_ok hsides
  refine refusesOnly_bind ?_ fun _ _ => refusesOnly_pure _
  exact Asset.reports_amountOut (hp.valid_of_asset htarget) source coin.amount fee

theorem reports_quotePurchase (coin : Coin) (denomIn : String) (fee : Fixed) :
    Reports [p.id] (p.quotePurchase coin denomIn fee) := by
  refine refusesOnly_bind (p.reports_sides denomIn coin.denom) ?_
  rintro ⟨source, target⟩ hsides
  obtain ⟨_, hsource, _⟩ := sides_eq_ok hsides
  refine refusesOnly_bind ?_ fun _ _ => refusesOnly_pure _
  exact Asset.reports_amountIn (hp.valid_of_asset hsource) target coin.amount fee

/-! ## Prices -/

/-- **A price** divides by the weights, which are positive, and by the weighted reserve of the quoted
asset, which is looked at before. -/
theorem reports_spotPrice (quote base : String) : Reports [p.id] (p.spotPrice quote base) := by
  refine refusesOnly_bind (p.reports_asset quote) fun q hq => ?_
  refine refusesOnly_bind (p.reports_asset base) fun b hb => ?_
  have hquoteWeight := (hp.valid_of_asset hq).weight_pos
  have hbaseWeight := (hp.valid_of_asset hb).weight_pos
  refine refusesOnly_bind (Fixed.reports_divide (Int.ne_of_gt hbaseWeight)) fun numerator _ => ?_
  refine refusesOnly_bind (Fixed.reports_divide (Int.ne_of_gt hquoteWeight)) fun denominator _ => ?_
  exact reports_require_bind (.plain rfl rfl) fun hne => Fixed.reports_divide (of_decide_eq_true hne)

theorem reports_spotPriceWithFee (quote base : String) :
    Reports [p.id] (p.spotPriceWithFee quote base) := by
  refine refusesOnly_bind (reports_spotPrice hp quote base) fun price _ => ?_
  refine refusesOnly_bind (Fee.reports_complement p.swapFee) fun rest hrest => ?_
  refine refusesOnly_bind (Fixed.reports_divide (Fee.complement_ne_zero hrest)) fun _ _ => ?_
  exact refusesOnly_pure _

end

/-! ## Shares -/

/-- **The formula for shares** objects to its fee and to what the curve objects to. -/
theorem reports_sharesForDeposit (balance part shares amount fee : Fixed) :
    Reports ids (sharesForDeposit balance part shares amount fee) := by
  refine refusesOnly_bind (Fee.reports_complement _) fun rest _ => ?_
  exact refusesOnly_bind (Curve.reports_delta _ _ _ _ _) fun _ _ => refusesOnly_pure _

section

variable {p : Pool} (hp : p.Valid)

include hp

/-- **A deposit** of a coin that the pool has is never refused in the name of the pool: once the amount and
the shares are seen to be positive, nothing about the pool is left to object to. -/
theorem reports_joinWith_of_mem {coin : Coin} (h : coin.denom ∈ p.denoms) (fee : Fixed) :
    Reports ids (p.joinWith coin fee) := by
  obtain ⟨a, hasset⟩ := exists_asset_of_mem_denoms h
  obtain ⟨hmem, -⟩ := mem_of_asset hasset
  refine refusesOnly_bind (Fee.reports_check fee) fun _ _ => ?_
  rw [hasset, ok_bind]
  refine reports_require_bind (.plain rfl rfl) fun hamount => ?_
  have hamount : 0 < coin.amount.raw := of_decide_eq_true hamount
  refine refusesOnly_bind (Fixed.reports_divide (hp.totalWeight_pos hmem).ne') fun part _ => ?_
  refine refusesOnly_bind (reports_sharesForDeposit _ _ _ _ _) fun issued _ => ?_
  refine refusesOnly_bind (Fixed.reports_truncate hp.shareDecimals issued) fun shares _ => ?_
  refine reports_require_bind (.plain rfl rfl) fun hshares => ?_
  have hshares : 0 < shares.raw := of_decide_eq_true hshares
  -- a reserve and the supply have grown, so the pool is taken
  have hbalance : 0 ≤ (a.balance + coin.amount).raw :=
    Int.add_nonneg (hp.assets a hmem).balance_nonneg (Int.le_of_lt hamount)
  have hstaged := withBalances_of_nonneg hp [(a.denom, a.balance + coin.amount)]
    (List.forall_mem_singleton.mpr (List.mem_map_of_mem hmem)) (List.forall_mem_singleton.mpr hbalance)
  obtain ⟨hvalid, -⟩ := withBalances_eq_ok hp hstaged
  have hsupply : 0 < (p.totalShares + shares).raw := Int.add_pos hp.shares_pos hshares
  rw [hstaged, ok_bind, withTotalShares_of_pos hvalid hsupply, ok_bind]
  exact refusesOnly_pure _

/-- A deposit of one coin reports. -/
theorem reports_joinWith (coin : Coin) (fee : Fixed) : Reports [p.id] (p.joinWith coin fee) := by
  by_cases hdenom : coin.denom ∈ p.denoms
  · exact reports_joinWith_of_mem hp hdenom fee
  · refine refusesOnly_bind (Fee.reports_check fee) fun _ _ => ?_
    rw [asset_eq_error_of_notMem hdenom]
    exact reports_refuse (.naming rfl rfl)

theorem reports_join (coins : List Coin) (fee : Fixed) : Reports [p.id] (p.join coins fee) := by
  refine refusesOnly_bind ?_ fun _ _ => ?_
  · exact refusesOnly_forM fun coin _ => refusesOnly_discard (p.reports_asset coin.denom)
  split
  · exact reports_joinWith hp _ fee
  · exact reports_require_bind (.naming rfl rfl) fun _ => reports_refuse (.naming rfl rfl)

/-- A refund reports, and does not name the pool. -/
theorem reports_refunded (shares fee : Fixed) : Reports ids (p.refunded shares fee) := by
  unfold refunded
  split
  · exact refusesOnly_pure shares
  · refine refusesOnly_bind (Fee.reports_complement fee) fun rest _ => ?_
    exact Fixed.reports_truncate hp.shareDecimals _

/-- **An exit** divides by the supply, which is positive, and truncates to the precisions of the pool's
own assets. -/
theorem reports_exit (shares fee : Fixed) : Reports [p.id] (p.exit shares fee) := by
  refine refusesOnly_bind (Fee.reports_check fee) fun _ _ => ?_
  refine reports_require_bind (.plain rfl rfl) fun _ => ?_
  refine reports_require_bind (.plain rfl rfl) fun _ => ?_
  refine refusesOnly_bind (reports_refunded hp shares fee) fun refund _ => ?_
  refine refusesOnly_bind (Fixed.reports_divide (Int.ne_of_gt hp.shares_pos)) fun ratio _ => ?_
  have hpayment : ∀ a ∈ p.assets, Reports [p.id] (do return (a, ← payment? ratio a)) := by
    intro a ha
    refine refusesOnly_bind ?_ fun _ _ => refusesOnly_pure _
    exact refusesOnly_bind (Fixed.reports_truncate (hp.assets a ha).decimals _) fun _ _ => refusesOnly_pure _
  refine refusesOnly_bind (refusesOnly_mapM hpayment) fun payments _ => ?_
  refine reports_require_bind (.plain rfl rfl) fun _ => ?_
  refine refusesOnly_bind (p.reports_withBalances _) fun q hq => ?_
  obtain ⟨-, rfl⟩ := withBalances_eq_ok hp hq
  exact refusesOnly_bind (reports_withTotalShares _ _) fun _ _ => refusesOnly_pure _

end

/-! ## The engine -/

/-- **The engine is total up to its own causes.**  Whatever coins, fees and shares a valid pool is
asked about, every operation answers or refuses with a reported failure, in whose message no number but
the pool's would stand, and so do the curve and the formula for shares on any numbers at all, in whose
messages no number stands.  A pool that is answered is valid.  So nothing is divided by zero, no argument
has a wrong type and no series is given up; and if the number of the pool can be written, no value is
objected to either. -/
theorem engine_reports {p : Pool} (hp : p.Valid) :
    (∀ coin denomOut fee, Reports [p.id] (p.quoteSale coin denomOut fee)) ∧
    (∀ coin denomIn fee, Reports [p.id] (p.quotePurchase coin denomIn fee)) ∧
    (∀ taken given, Reports [p.id] (p.trade taken given) ∧
      ∀ q, p.trade taken given = .ok q → q.Valid) ∧
    (∀ quote base, Reports [p.id] (p.spotPrice quote base)) ∧
    (∀ quote base, Reports [p.id] (p.spotPriceWithFee quote base)) ∧
    (∀ coin fee, Reports [p.id] (p.joinWith coin fee) ∧
      ∀ j, p.joinWith coin fee = .ok j → j.pool.Valid) ∧
    (∀ coins fee, Reports [p.id] (p.join coins fee) ∧ ∀ j, p.join coins fee = .ok j → j.pool.Valid) ∧
    (∀ shares fee, Reports [p.id] (p.exit shares fee) ∧ ∀ e, p.exit shares fee = .ok e → e.pool.Valid) ∧
    (∀ before after fixedWeight other otherWeight,
      Reports [] (Curve.delta before after fixedWeight other otherWeight)) ∧
    (∀ balance part shares amount fee, Reports [] (sharesForDeposit balance part shares amount fee)) ∧
    ∀ f : Failure, f.Reported [p.id] → f.kind ≠ .zeroDivision ∧ f.kind ≠ .type ∧
      f.kind ≠ .powDidNotConverge ∧ (Text.IsWritable p.id → f.kind ≠ .value) := by
  have hjoinWith : ∀ coin fee j, p.joinWith coin fee = .ok j → j.pool.Valid := by
    intro coin fee j h
    obtain ⟨_, _, hdeposits⟩ := joinWith_eq_ok hp h
    exact hdeposits.valid
  refine ⟨reports_quoteSale hp, reports_quotePurchase hp, ?trade, reports_spotPrice hp,
    reports_spotPriceWithFee hp, ?joinWith, ?join, ?exit, Curve.reports_delta,
    reports_sharesForDeposit, ?kinds⟩
  case trade =>
    intro taken given
    exact ⟨p.reports_trade taken given, fun q h => (trade_eq_ok hp h).1⟩
  case joinWith =>
    intro coin fee
    exact ⟨reports_joinWith hp coin fee, hjoinWith coin fee⟩
  case join =>
    intro coins fee
    refine ⟨reports_join hp coins fee, ?_⟩
    intro j h
    obtain ⟨coin, _, hcoin⟩ := join_eq_ok h
    exact hjoinWith coin fee j hcoin
  case exit =>
    intro shares fee
    refine ⟨reports_exit hp shares fee, ?_⟩
    intro e h
    obtain ⟨_, _, hredeems⟩ := exit_eq_ok hp h
    exact hredeems.valid
  case kinds =>
    intro f hf
    obtain ⟨hzero, htype, hseries, hvalue⟩ := hf.kind_ne
    exact ⟨hzero, htype, hseries, fun h => hvalue (List.forall_mem_singleton.mpr h)⟩

/-- Selling a coin that the pool does not hold is refused, and the refusal is a reported one. -/
theorem engine_reports_unknown : ∃ f, evenPool.quoteSale ⟨"c", .one⟩ "a" .zero = .error f ∧
    f.Reported [1] ∧ f.kind = .unknownDenomination := by
  refine ⟨.unknownDenom 1 "c", by decide +kernel, ?_, rfl⟩
  exact (engine_reports evenPool_valid).1 ⟨"c", .one⟩ "a" .zero _ (by decide +kernel)

/-! ### A pool that cannot be named -/

/-- `evenPool` under the least number that is too long to be written. -/
def unnamedPool : Pool := { evenPool with id := (10 ^ Text.maxIntegerDigits : Nat) }

theorem unnamedPool_valid : unnamedPool.Valid := evenPool_valid.renumbered _

/-- The number of this pool has one digit too many. -/
theorem not_isWritable_unnamedPool : ¬ Text.IsWritable unnamedPool.id := Text.not_isWritable_pow

/-- A valid pool that objects to the value of its own number where it should say that it does not hold the
coin which is sold. -/
theorem unnamedPool_unreported : unnamedPool.Valid ∧
    unnamedPool.quoteSale ⟨"c", .one⟩ "a" .zero = .error .longInteger ∧
    Failure.longInteger.kind = .value ∧ Failure.longInteger.isEngine = false := by
  have hasset : unnamedPool.asset "c" = .error .longInteger := by
    rw [asset_eq_error_of_notMem (by decide),
      settled_of_not_isWritable rfl rfl not_isWritable_unnamedPool]
  have hsides : unnamedPool.sides "c" "a" = .error .longInteger := by
    rw [sides, require_eq_ok.mpr (by decide), ok_bind, hasset]
    rfl
  refine ⟨unnamedPool_valid, ?_, rfl, rfl⟩
  rw [quoteSale, hsides]
  rfl

end Pool

end WeightedMarket
