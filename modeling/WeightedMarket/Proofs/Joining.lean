/-
  Which joins are refused for the choice of their coins.

  A join is asked for with a list of coins, and the list alone decides what becomes of it: a coin of a
  foreign denomination refuses it, a single coin makes it a deposit, every asset once is the proportional
  join, and anything else has no shape that a pool supports.  Only lengths and repetitions are compared;
  that a list of as many different denominations as the pool has, all of them the pool's, names each once
  is a matter of counting (`denoms_perm_iff`).

  All refusals of a choice name the pool, and a deposit, once its asset is found, is never refused in the
  name of the pool (`kind_of_joinWith`).  So the kind of a refusal tells which of the cases it was.  If the
  number of the pool is too long to be written, then the cases that name it have one refusal in common
  (`join_dispatch`).
-/
import Mathlib.Data.List.Perm.Subperm
import WeightedMarket.Proofs.Refusal

namespace WeightedMarket

open Decision

/-! ## Refusals of a choice -/

/-- Whether a failure of the kind objects to the choice of the coins. -/
def Kind.isChoice : Kind → Bool
  | .unknownDenomination | .unsupportedJoinShape | .notImplementedJoin => true
  | _ => false

namespace Failure

/-- Who objects to a choice says which pool was asked. -/
theorem numbers_ne_nil_of_isChoice {f : Failure} (h : f.kind.isChoice = true) : f.numbers ≠ [] := by
  cases f with
  | unknownDenom | joinShape | proportionalJoin => exact List.cons_ne_nil _ _
  | file fault => cases fault <;> cases h
  | _ => cases h

/-- What is reported without naming a pool objects neither to a choice nor to the name of the pool. -/
theorem Reported.of_unnamed {f : Failure} (h : f.Reported []) :
    f.kind.isChoice = false ∧ f ≠ .longInteger := by
  cases h with
  | unwritten => exact ⟨rfl, nofun⟩
  | unnamed hcause hmem => exact absurd (hcause.numbers hmem) List.not_mem_nil
  | raised hcause =>
    refine ⟨?_, ?_⟩
    · by_contra hchoice
      exact numbers_ne_nil_of_isChoice (by simpa using hchoice) (List.subset_nil.mp hcause.numbers)
    · rintro rfl
      exact absurd hcause.kind (by decide)

end Failure

namespace Decision

variable {α β : Type}

/-- The decision refuses with a failure of a kind. -/
def RefusesWith (k : Kind) (x : Except Failure α) : Prop := ∃ f, x = .error f ∧ f.kind = k

theorem refusesWith_error {k : Kind} {f : Failure} :
    RefusesWith k (.error f : Except Failure α) ↔ f.kind = k := by
  constructor
  · rintro ⟨g, hg, hkind⟩
    rwa [Except.error.inj hg]
  · intro hkind
    exact ⟨f, rfl, hkind⟩

end Decision

namespace Pool

variable {p : Pool}

/-! ## Denominations -/

theorem discard_asset_of_mem {denom : String} (h : denom ∈ p.denoms) :
    discard (p.asset denom) = .ok () :=
  discard_eq_ok.mpr (exists_asset_of_mem_denoms h)

/-- The first foreign denomination of a list is the one that is reported. -/
theorem forM_asset_eq_error {coins : List Coin} (h : ∃ coin ∈ coins, coin.denom ∉ p.denoms) :
    ∃ denom, coins.forM (fun coin => discard (p.asset coin.denom)) =
      .error (Failure.unknownDenom p.id denom).settled := by
  induction coins with
  | nil =>
    obtain ⟨coin, hcoin, _⟩ := h
    exact absurd hcoin List.not_mem_nil
  | cons coin coins ih =>
    by_cases hdenom : coin.denom ∈ p.denoms
    · -- the first coin is known, so a later one is not
      obtain ⟨denom, hrest⟩ := ih (by simpa [hdenom] using h)
      refine ⟨denom, ?_⟩
      show (discard (p.asset coin.denom) >>= fun _ => coins.forM _) = _
      rw [discard_asset_of_mem hdenom, ok_bind, hrest]
    · refine ⟨coin.denom, ?_⟩
      show (discard (p.asset coin.denom) >>= fun _ => coins.forM _) = _
      rw [asset_eq_error_of_notMem hdenom]
      rfl

/-- **Counting.**  A list of the pool's denominations is an arrangement of all of them exactly if it is as
long as the list of assets and repeats nothing. -/
theorem denoms_perm_iff (hp : p.Valid) {denoms : List String} (hknown : ∀ denom ∈ denoms, denom ∈ p.denoms) :
    denoms.Perm p.denoms ↔ denoms.length = p.assets.length ∧ denoms.Nodup := by
  have hlength : p.denoms.length = p.assets.length := List.length_map _
  constructor
  · intro hperm
    exact ⟨hperm.length_eq.trans hlength, hperm.nodup_iff.mpr hp.nodup⟩
  · rintro ⟨hcount, hnodup⟩
    -- different denominations of the pool fit into its list, and leave no place free
    exact (hnodup.subperm hknown).perm_of_length_le (by omega)

/-! ## Deposits -/

/-- A foreign coin is refused for its fee, or as foreign. -/
theorem joinWith_of_foreign {coin : Coin} (h : coin.denom ∉ p.denoms) (fee : Fixed) :
    RefusesOnly (fun f => f.kind.isChoice = true → f.kind = .unknownDenomination)
      (p.joinWith coin fee) := by
  refine refusesOnly_bind ?fee fun _ _ => ?asset
  case fee =>
    have hfee : Reports [] (Fee.check fee) := Fee.reports_check fee
    exact hfee.mono fun f hf hchoice => absurd (hf.of_unnamed.1.symm.trans hchoice) Bool.false_ne_true
  case asset =>
    rw [asset_eq_error_of_notMem h]
    refine refusesOnly_refuse ?_
    rw [settled_eq_ite rfl rfl]
    split
    · exact fun _ => rfl
    · exact nofun

section

variable (hp : p.Valid) {coin : Coin} {fee : Fixed}

include hp

/-- The deposit of a coin of the pool is refused neither for its choice nor for the name of the pool. -/
theorem kind_of_joinWith (h : coin.denom ∈ p.denoms) {f : Failure} (hf : p.joinWith coin fee = .error f) :
    f.kind.isChoice = false ∧ f ≠ .longInteger :=
  (reports_joinWith_of_mem hp h fee f hf).of_unnamed

/-- **A deposit** is refused for the choice of its coin only if the pool has no asset of that
denomination. -/
theorem foreign_of_joinWith {k : Kind} (hchoice : k.isChoice = true)
    (h : RefusesWith k (p.joinWith coin fee)) : k = .unknownDenomination ∧ coin.denom ∉ p.denoms := by
  obtain ⟨f, hf, rfl⟩ := h
  by_cases hdenom : coin.denom ∈ p.denoms
  · exact absurd ((kind_of_joinWith hp hdenom hf).1.symm.trans hchoice) Bool.false_ne_true
  · exact ⟨joinWith_of_foreign hdenom fee f hf hchoice, hdenom⟩

end

/-! ## Joins -/

/-- A join with a foreign coin reports it. -/
theorem join_of_foreign {coins : List Coin} (h : ∃ coin ∈ coins, coin.denom ∉ p.denoms) (fee : Fixed) :
    ∃ denom, p.join coins fee = .error (Failure.unknownDenom p.id denom).settled := by
  obtain ⟨denom, hwalk⟩ := forM_asset_eq_error h
  refine ⟨denom, ?_⟩
  unfold join
  rw [hwalk]
  rfl

section

variable {coins : List Coin} (hknown : ∀ coin ∈ coins, coin.denom ∈ p.denoms)

include hknown

theorem forM_asset_eq_ok : coins.forM (fun coin => discard (p.asset coin.denom)) = .ok () :=
  forM_eq_ok.mpr fun coin hcoin => discard_asset_of_mem (hknown coin hcoin)

/-- A single coin of the pool makes a deposit. -/
theorem join_of_single {coin : Coin} (h : coins = [coin]) (fee : Fixed) :
    p.join coins fee = p.joinWith coin fee := by
  subst h
  unfold join
  rw [forM_asset_eq_ok hknown]
  rfl

/-- Any other list of the pool's coins is refused: as the proportional join if it arranges all the
denominations of the pool, and for its shape if it does not. -/
theorem join_of_length_ne (hp : p.Valid) (h : coins.length ≠ 1) (fee : Fixed) : p.join coins fee =
    if (coins.map (·.denom)).Perm p.denoms then .error (Failure.proportionalJoin p.id).settled
    else .error (Failure.joinShape p.id p.assets.length (coins.map (·.denom))).settled := by
  have hjoin : p.join coins fee =
      (require (decide (coins.length = p.assets.length) && decide (coins.map (·.denom)).Nodup)
        (.joinShape p.id p.assets.length (coins.map (·.denom))) >>= fun _ =>
          refuse (.proportionalJoin p.id)) := by
    unfold join
    rw [forM_asset_eq_ok hknown, ok_bind]
    rcases coins with _ | ⟨coin, _ | ⟨coin', rest⟩⟩
    · rfl
    · exact absurd rfl h
    · rfl
  have hshape : (decide (coins.length = p.assets.length) && decide (coins.map (·.denom)).Nodup) =
      decide ((coins.map (·.denom)).Perm p.denoms) := by
    rw [← Bool.decide_and, decide_eq_decide, denoms_perm_iff hp (List.forall_mem_map.mpr hknown),
      List.length_map]
  rw [hjoin, hshape]
  split
  · next hperm =>
    rw [decide_eq_true hperm]
    rfl
  · next hperm =>
    rw [decide_eq_false hperm]
    rfl

section

variable (hp : p.Valid) (hwritable : Text.IsWritable p.id) (fee : Fixed)

include hp hwritable

/-- Known coins are refused for their choice only if there is not just one of them, and then for the one
reason that their arrangement gives. -/
theorem refusesWith_join_iff {k : Kind} (hchoice : k.isChoice = true) :
    RefusesWith k (p.join coins fee) ↔ coins.length ≠ 1 ∧
      k = if (coins.map (·.denom)).Perm p.denoms then .notImplementedJoin else .unsupportedJoinShape := by
  by_cases hlength : coins.length = 1
  · obtain ⟨coin, rfl⟩ := List.length_eq_one_iff.mp hlength
    rw [join_of_single hknown rfl]
    refine iff_of_false (fun h => ?_) fun h => h.1 hlength
    exact (foreign_of_joinWith hp hchoice h).2 (hknown coin List.mem_cons_self)
  · rw [join_of_length_ne hknown hp hlength, settled_of_isWritable rfl rfl hwritable,
      settled_of_isWritable rfl rfl hwritable]
    split
    · rw [refusesWith_error]
      exact ⟨fun h => ⟨hlength, h.symm⟩, fun h => h.2.symm⟩
    · rw [refusesWith_error]
      exact ⟨fun h => ⟨hlength, h.symm⟩, fun h => h.2.symm⟩

/-- Only a single coin is treated as a deposit: no deposit is refused as a list of coins is. -/
theorem join_eq_joinWith_iff :
    (∃ coin, p.join coins fee = p.joinWith coin fee) ↔ coins.length = 1 := by
  constructor
  · rintro ⟨coin, h⟩
    by_contra hlength
    have hrefuses := (refusesWith_join_iff hknown hp hwritable fee
      (k := if (coins.map (·.denom)).Perm p.denoms then .notImplementedJoin else .unsupportedJoinShape)
      (by split <;> rfl)).mpr ⟨hlength, rfl⟩
    rw [h] at hrefuses
    have hkind := (foreign_of_joinWith hp (by split <;> rfl) hrefuses).1
    split at hkind
    · cases hkind
    · cases hkind
  · intro hlength
    obtain ⟨coin, hcoin⟩ := List.length_eq_one_iff.mp hlength
    exact ⟨coin, join_of_single hknown hcoin fee⟩

end

end

/-- A pool that cannot be named objects to its name wherever it would object to a choice, and nowhere
else. -/
theorem join_eq_longInteger_iff (hp : p.Valid) (hlong : ¬ Text.IsWritable p.id) {coins : List Coin}
    {fee : Fixed} : p.join coins fee = .error .longInteger ↔
      (∃ coin ∈ coins, coin.denom ∉ p.denoms) ∨ coins.length ≠ 1 := by
  by_cases hforeign : ∃ coin ∈ coins, coin.denom ∉ p.denoms
  · obtain ⟨denom, hjoin⟩ := join_of_foreign hforeign fee
    rw [hjoin, settled_of_not_isWritable rfl rfl hlong]
    exact iff_of_true rfl (.inl hforeign)
  · have hknown : ∀ coin ∈ coins, coin.denom ∈ p.denoms := by simpa using hforeign
    by_cases hlength : coins.length = 1
    · obtain ⟨coin, rfl⟩ := List.length_eq_one_iff.mp hlength
      rw [join_of_single hknown rfl]
      refine iff_of_false (fun h => ?_) fun h => h.elim hforeign fun h => h hlength
      exact (kind_of_joinWith hp (hknown coin List.mem_cons_self) h).2 rfl
    · rw [join_of_length_ne hknown hp hlength, settled_of_not_isWritable rfl rfl hlong,
        settled_of_not_isWritable rfl rfl hlong, ite_self]
      exact iff_of_true rfl (.inr hlength)

/-- A pool has too many assets for a single coin to arrange them. -/
theorem Valid.length_ne_one_of_perm {p : Pool} (hp : p.Valid) {coins : List Coin}
    (h : (coins.map (·.denom)).Perm p.denoms) : coins.length ≠ 1 := by
  have hlength := h.length_eq
  rw [List.length_map, denoms, List.length_map] at hlength
  have htwo := hp.two_le
  omega

/-- **The choice of the coins decides a join.**  It is refused for a foreign denomination exactly if one
of its coins has one.  If none has, it is the deposit of a coin exactly if there is just this coin; it is
refused as the proportional join exactly if its denominations are those of the pool in some order; and it
is refused for its shape in every other case.  All these refusals name the pool: if its number is too long
to be written, that is what each of them says instead, and only they do. -/
theorem join_dispatch {p : Pool} (hp : p.Valid) (coins : List Coin) (fee : Fixed) :
    (Text.IsWritable p.id →
      (RefusesWith .unknownDenomination (p.join coins fee) ↔ ∃ coin ∈ coins, coin.denom ∉ p.denoms) ∧
      ((∀ coin ∈ coins, coin.denom ∈ p.denoms) →
        (∀ coin, coins = [coin] → p.join coins fee = p.joinWith coin fee) ∧
        ((∃ coin, p.join coins fee = p.joinWith coin fee) ↔ coins.length = 1) ∧
        (RefusesWith .notImplementedJoin (p.join coins fee) ↔ (coins.map (·.denom)).Perm p.denoms) ∧
        (RefusesWith .unsupportedJoinShape (p.join coins fee) ↔
          coins.length ≠ 1 ∧ ¬ (coins.map (·.denom)).Perm p.denoms))) ∧
    (¬ Text.IsWritable p.id →
      (p.join coins fee = .error .longInteger ↔
        (∃ coin ∈ coins, coin.denom ∉ p.denoms) ∨ coins.length ≠ 1) ∧
      ∀ coin, coins = [coin] → coin.denom ∈ p.denoms → p.join coins fee = p.joinWith coin fee) := by
  constructor
  · intro hwritable
    constructor
    · constructor
      · -- known coins are refused for one of the two other reasons
        intro hrefuses
        by_contra hforeign
        have hknown : ∀ coin ∈ coins, coin.denom ∈ p.denoms := by simpa using hforeign
        have hkind := ((refusesWith_join_iff hknown hp hwritable fee rfl).mp hrefuses).2
        split at hkind
        · cases hkind
        · cases hkind
      · intro hforeign
        obtain ⟨denom, hjoin⟩ := join_of_foreign hforeign fee
        rw [hjoin, settled_of_isWritable rfl rfl hwritable]
        exact ⟨_, rfl, rfl⟩
    · intro hknown
      refine ⟨fun coin hcoin => join_of_single hknown hcoin fee,
        join_eq_joinWith_iff hknown hp hwritable fee, ?_, ?_⟩
      · rw [refusesWith_join_iff hknown hp hwritable fee rfl]
        by_cases hperm : (coins.map (·.denom)).Perm p.denoms
        · simp [hperm, hp.length_ne_one_of_perm hperm]
        · simp [hperm]
      · rw [refusesWith_join_iff hknown hp hwritable fee rfl]
        by_cases hperm : (coins.map (·.denom)).Perm p.denoms
        · simp [hperm]
        · simp [hperm]
  · intro hlong
    refine ⟨join_eq_longInteger_iff hp hlong, ?_⟩
    rintro coin rfl hdenom
    exact join_of_single (List.forall_mem_singleton.mpr hdenom) rfl fee

/-- A coin of each asset of `evenPool`, not in the order of the pool. -/
def eachAsset : List Coin := [⟨"b", .one⟩, ⟨"a", .half⟩]

/-- `evenPool` refuses a coin of each of its assets as the proportional join, not for a foreign coin and
not for their shape. -/
theorem eachAsset_dispatch : (∀ coin ∈ eachAsset, coin.denom ∈ evenPool.denoms) ∧
    ¬ RefusesWith .unknownDenomination (evenPool.join eachAsset .zero) ∧
    RefusesWith .notImplementedJoin (evenPool.join eachAsset .zero) ∧
    ¬ RefusesWith .unsupportedJoinShape (evenPool.join eachAsset .zero) := by
  have hknown : ∀ coin ∈ eachAsset, coin.denom ∈ evenPool.denoms := by decide
  have hperm : (eachAsset.map (·.denom)).Perm evenPool.denoms := by decide
  obtain ⟨hforeign, hrest⟩ := (join_dispatch evenPool_valid eachAsset .zero).1 (by decide)
  obtain ⟨-, -, hproportional, hshape⟩ := hrest hknown
  refine ⟨hknown, fun h => ?_, hproportional.mpr hperm, fun h => (hshape.mp h).2 hperm⟩
  obtain ⟨coin, hcoin, hdenom⟩ := hforeign.mp h
  exact hdenom (hknown coin hcoin)

/-- A valid pool that cannot be named refuses a coin of each of its assets, but neither as the proportional
join nor for any other choice. -/
theorem eachAsset_unnamed : unnamedPool.Valid ∧ (eachAsset.map (·.denom)).Perm unnamedPool.denoms ∧
    ¬ RefusesWith .notImplementedJoin (unnamedPool.join eachAsset .zero) ∧
    unnamedPool.join eachAsset .zero = .error .longInteger := by
  have hperm : (eachAsset.map (·.denom)).Perm unnamedPool.denoms := by decide
  have hjoin : unnamedPool.join eachAsset .zero = .error .longInteger :=
    (join_eq_longInteger_iff unnamedPool_valid not_isWritable_unnamedPool).mpr (.inr (by decide))
  refine ⟨unnamedPool_valid, hperm, ?_, hjoin⟩
  rw [hjoin, refusesWith_error]
  exact nofun

end Pool

end WeightedMarket
