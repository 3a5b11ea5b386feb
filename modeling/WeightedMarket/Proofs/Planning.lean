/-
  What a plan has found out.

  Planning only reads the market, and every rule it checks is a decision.  `Planned` has one
  constructor for each operation, which lists everything that planning it has checked and computed,
  last that the number of the pool can be written, from which its account and its shares are named;
  `planned_of_plan` says that whatever is planned is one of the four.  Nothing later in the theory
  opens the planning functions again.
-/
import WeightedMarket.Market.Plan
import WeightedMarket.Proofs.Quote
import WeightedMarket.Proofs.Rounding
import WeightedMarket.Proofs.Staging

namespace WeightedMarket

open Decision

/-! ## Decisions on the way -/

theorem Action.pure_eq_ok {σ α : Type} {a b : α} {s s' : σ}
    (h : (pure a : Action σ α) s = (.ok b, s')) : a = b := by
  rw [Action.pure_apply] at h
  exact Except.ok.inj (congrArg Prod.fst h)

/-- The answer of a sequence is that of its answers. -/
theorem Action.fst_bind {σ α β : Type} (x : Action σ α) (f : α → Action σ β) (s : σ) :
    ((x >>= f) s).1 = (x s).1 >>= fun a => (f a (x s).2).1 := by
  rw [bind_apply]
  rcases x s with ⟨_ | _, _⟩ <;> rfl

/-- Whatever is written down, a decision answers what was decided. -/
theorem Progress.fst_decide {α : Type} (x : Except Failure α) (s : Progress) :
    (Progress.decide x s).1 = x := by
  cases x with
  | ok a => rfl
  | error f => cases hnote : f.note? <;> simp only [Progress.decide, hnote] <;> rfl

theorem Progress.decide_eq_ok {α : Type} {x : Except Failure α} {a : α} {s s' : Progress}
    (h : Progress.decide x s = (.ok a, s')) : x = .ok a :=
  (Progress.fst_decide x s).symm.trans (congrArg Prod.fst h)

/-- A decision, and then the rest. -/
theorem Progress.decide_bind_eq_ok {α β : Type} {x : Except Failure α} {f : α → Action Progress β}
    {b : β} {s s₂ : Progress} (h : (Progress.decide x >>= f) s = (.ok b, s₂)) :
    ∃ a s₁, x = .ok a ∧ f a s₁ = (.ok b, s₂) := by
  rw [Action.bind_eq_ok] at h
  obtain ⟨a, s₁, hx, h⟩ := h
  exact ⟨a, s₁, Progress.decide_eq_ok hx, h⟩

/-- A note or a stage, and then the rest. -/
theorem Progress.change_bind_eq_ok {β : Type} {g : Progress → Progress} {f : Unit → Action Progress β}
    {b : β} {s s₂ : Progress} (h : (Action.change g >>= f) s = (.ok b, s₂)) :
    ∃ s₁, f () s₁ = (.ok b, s₂) := ⟨g s, h⟩

/-! ## Raised inputs -/

theorem unitRaw_of_isPrecision {decimals : Int} (h : IsPrecision decimals) :
    unitRaw decimals = .ok (Fixed.unitOf decimals.toNat) := by
  have hplaces : (18 - decimals).toNat = Fixed.places - decimals.toNat := by
    have := h.1
    rw [Fixed.places]
    omega
  rw [unitRaw, if_neg (Int.not_lt.mpr h.2), hplaces]
  rfl

/-- The first raise is one unit or more, and whole units. -/
theorem firstBump_eq_ok {start want out bump : Fixed} {decimals : Int}
    (h : firstBump start want out decimals = .ok bump) :
    Fixed.unitOf decimals.toNat ≤ bump.raw ∧ Fixed.unitOf decimals.toNat ∣ bump.raw := by
  rw [firstBump, bind_eq_ok] at h
  obtain ⟨unit, hunit, h⟩ := h
  rw [bind_eq_ok] at h
  obtain ⟨price, _, h⟩ := h
  rw [bind_eq_ok] at h
  obtain ⟨more, hmore, h⟩ := h
  rw [Decision.pure_eq_ok] at h
  obtain ⟨hprecision, rfl⟩ := Fixed.ceil_eq_ceilTo hmore
  have hone : unit = Fixed.unitOf decimals.toNat :=
    Except.ok.inj (hunit.symm.trans (unitRaw_of_isPrecision hprecision))
  subst h
  rw [Fixed.max, hone]
  split
  · next hlt => exact ⟨Int.le_of_lt (Fixed.lt_def.mp hlt), Fixed.unitOf_dvd_ceilTo _ _⟩
  · exact ⟨Int.le_refl _, Int.dvd_refl _⟩

/-- An input that was raised lies whole bumps above the start, and brings what is wanted. -/
theorem raiseInput_eq_some {σ : Type} {forward : Fixed → Action σ (Option Fixed)}
    {start want charged out : Fixed} {left : Nat} {bump : Fixed} {s s' : σ} {unit : Int}
    (hbump : 0 ≤ bump.raw) (hunit : unit ∣ bump.raw)
    (h : raiseInput forward start want left bump s = (.ok (some (charged, out)), s')) :
    start ≤ charged ∧ unit ∣ charged.raw - start.raw ∧ want ≤ out ∧
      ∃ s₁ s₂, forward charged s₁ = (.ok (some out), s₂) := by
  induction left generalizing bump s with
  | zero =>
    rw [raiseInput] at h
    cases Action.pure_eq_ok h
  | succ left ih =>
    rw [raiseInput, Action.bind_eq_ok] at h
    obtain ⟨tried, s₁, htried, h⟩ := h
    cases tried with
    | none => cases Action.pure_eq_ok h
    | some bought =>
      dsimp only at h
      -- either this raise is enough, or the next one is ten times as large
      split at h
      · next henough =>
        cases Action.pure_eq_ok h
        refine ⟨?_, ?_, henough, s, s₁, htried⟩
        · rw [Fixed.le_def, Fixed.raw_add]
          omega
        · have hraise : (start + bump).raw - start.raw = bump.raw := by
            rw [Fixed.raw_add]
            omega
          rwa [hraise]
      · refine ih ?_ ?_ h
        · rw [Fixed.raw_mul_ofInt]
          omega
        · rw [Fixed.raw_mul_ofInt]
          exact Int.dvd_mul_of_dvd_left hunit

/-- What converging answers is the first input or whole units more, and its sale brings enough. -/
theorem converge_eq_some {σ : Type} {forward : Fixed → Action σ (Option Fixed)}
    {start want charged out : Fixed} {decimals attempts : Int} {s s' : σ}
    (h : converge forward start want decimals attempts s = (.ok (some (charged, out)), s')) :
    start ≤ charged ∧ Fixed.unitOf decimals.toNat ∣ charged.raw - start.raw ∧ want ≤ out ∧
      ∃ s₁ s₂, forward charged s₁ = (.ok (some out), s₂) := by
  rw [converge, Action.bind_eq_ok] at h
  obtain ⟨tried, s₁, htried, h⟩ := h
  cases tried with
  | none => cases Action.pure_eq_ok h
  | some bought =>
    dsimp only at h
    -- the first input is enough as it is, or it has to be raised
    split at h
    · next henough =>
      cases Action.pure_eq_ok h
      refine ⟨Int.le_refl _, ?_, henough, s, s₁, htried⟩
      rw [Int.sub_self]
      exact Int.dvd_zero _
    · rw [Action.bind_eq_ok] at h
      obtain ⟨bump, s₂, hbump, h⟩ := h
      obtain ⟨hle, hunit⟩ := firstBump_eq_ok (congrArg Prod.fst hbump)
      exact raiseInput_eq_some (Int.le_trans (Int.le_of_lt (Fixed.unitOf_pos _)) hle) hunit h

namespace Market

variable {m : Market}

/-- A sale that was simulated was computed with the fee of the pool. -/
theorem simulateSale_eq_some {p : Pool} {source target : Asset} {amount out : Fixed} {s s' : Progress}
    (h : simulateSale p source target amount s = (.ok (some out), s')) :
    source.amountOut target amount p.swapFee = .ok out := by
  unfold simulateSale at h
  cases hout : source.amountOut target amount p.swapFee with
  | ok out' =>
    simp only [hout] at h
    cases Action.pure_eq_ok h
    rfl
  | error f =>
    simp only [hout] at h
    split at h
    · rw [Action.bind_eq_ok] at h
      obtain ⟨_, _, _, h⟩ := h
      obtain ⟨_, h⟩ := Progress.change_bind_eq_ok h
      cases Action.pure_eq_ok h
    · cases h

/-- What a buyer is charged is what the computed input converges to. -/
theorem converge_of_convergedInput {p : Pool} {source target : Asset} {computed charged : Fixed}
    {coin : Coin} {s s' : Progress}
    (h : m.convergedInput p source target computed coin s = (.ok charged, s')) :
    ∃ out s₁, converge (simulateSale p source target) computed coin.amount source.decimals
      m.settings.attempts s = (.ok (some (charged, out)), s₁) := by
  rw [convergedInput, Action.bind_eq_ok] at h
  obtain ⟨found, s₁, hfound, h⟩ := h
  cases found with
  | none => exact absurd (Progress.decide_eq_ok h) refuse_ne_ok
  | some found =>
    obtain ⟨converged, out⟩ := found
    -- a raise is written down, which changes nothing of what is charged
    have heq : converged = charged := by
      dsimp only at h
      split at h
      · rw [Action.bind_eq_ok] at h
        obtain ⟨_, _, _, h⟩ := h
        rw [Action.bind_eq_ok] at h
        obtain ⟨_, _, _, h⟩ := h
        obtain ⟨_, h⟩ := Progress.change_bind_eq_ok h
        exact Action.pure_eq_ok h
      · exact Action.pure_eq_ok h
    subst heq
    exact ⟨out, s₁, hfound⟩

/-- What a buyer is charged is at least the computed input, and selling it brings the coin. -/
theorem convergedInput_eq_ok {p : Pool} {source target : Asset} {computed charged : Fixed} {coin : Coin}
    {s s' : Progress} (h : m.convergedInput p source target computed coin s = (.ok charged, s')) :
    computed ≤ charged ∧
      ∃ out, coin.amount ≤ out ∧ source.amountOut target charged p.swapFee = .ok out := by
  obtain ⟨out, _, hfound⟩ := converge_of_convergedInput h
  obtain ⟨hle, -, henough, _, _, hsale⟩ := converge_eq_some hfound
  exact ⟨hle, out, henough, simulateSale_eq_some hsale⟩

/-! ## Pools that are open -/

/-- A pool that is required to be open is open now. -/
theorem requireActive_eq_ok {p : Pool} {action : String} (h : m.requireActive p action = .ok ()) :
    p.isActive m.clock = .ok true := by
  rw [requireActive, bind_eq_ok] at h
  obtain ⟨active, hactive, h⟩ := h
  rw [hactive, require_eq_ok.mp h]

/-- What a swap has found: the pool that is loaded and open, and two assets of it. -/
structure Swappable (m : Market) (pool : Int) (traded : Coin) (denomIn denomOut : String) (p : Pool)
    (source target : Asset) : Prop where
  denom_ne : denomIn ≠ denomOut
  traded_pos : 0 < traded.amount.raw
  load : m.repository.load pool = .ok p
  source : p.asset denomIn = .ok source
  target : p.asset denomOut = .ok target
  active : p.isActive m.clock = .ok true

/-- A swap that has found its sides can be made. -/
theorem swapSides_eq_ok {pool : Int} {traded : Coin} {denomIn denomOut : String} {p : Pool}
    {source target : Asset}
    (h : m.swapSides pool traded denomIn denomOut = .ok (p, source, target)) :
    m.Swappable pool traded denomIn denomOut p source target := by
  rw [swapSides, bind_eq_ok] at h
  obtain ⟨_, hne, h⟩ := h
  rw [bind_eq_ok] at h
  obtain ⟨_, hpos, h⟩ := h
  rw [bind_eq_ok] at h
  obtain ⟨p', hload, h⟩ := h
  rw [bind_eq_ok] at h
  obtain ⟨source', hsource, h⟩ := h
  rw [bind_eq_ok] at h
  obtain ⟨target', htarget, h⟩ := h
  rw [bind_eq_ok] at h
  obtain ⟨_, hactive, h⟩ := h
  rw [Decision.pure_eq_ok] at h
  cases h
  exact
    { denom_ne := by simpa using require_eq_ok.mp hne
      traded_pos := by simpa using require_eq_ok.mp hpos
      load := hload
      source := hsource
      target := htarget
      active := requireActive_eq_ok hactive }

/-- A pool that can be joined is in the repository, and is open now. -/
theorem poolToJoin_eq_ok {pool : Int} {coins : List Coin} {p : Pool}
    (h : m.poolToJoin pool coins = .ok p) :
    m.repository.load pool = .ok p ∧ p.isActive m.clock = .ok true := by
  rw [poolToJoin, bind_eq_ok] at h
  obtain ⟨_, _, h⟩ := h
  rw [bind_eq_ok] at h
  obtain ⟨p', hload, h⟩ := h
  rw [bind_eq_ok] at h
  obtain ⟨_, hactive, h⟩ := h
  rw [Decision.pure_eq_ok] at h
  cases h
  exact ⟨hload, requireActive_eq_ok hactive⟩

/-! ## The four plans -/

/-- Everything that planning an operation has checked and computed. -/
inductive Planned (m : Market) : Request → Plan → Prop
  | swapIn {sender : String} {pool : Int} {coin : Coin} {denomOut : String} {minimum : Fixed}
      {p : Pool} {source target : Asset} {out : Fixed} {staged : Pool}
      (sides : m.Swappable pool coin coin.denom denomOut p source target)
      (sale : source.amountOut target coin.amount p.swapFee = .ok out)
      (enough : minimum ≤ out)
      (trade : p.trade coin ⟨denomOut, out⟩ = .ok staged)
      (named : Text.IsWritable p.id) :
      Planned m ⟨sender, pool, .swapIn coin denomOut minimum⟩
        ⟨staged, ⟨.swap, pool, sender, [coin], [⟨denomOut, out⟩]⟩, .amount out⟩
  | swapOut {sender : String} {pool : Int} {denomIn : String} {maximum : Fixed} {coin : Coin}
      {p : Pool} {source target : Asset} {charged out : Fixed} {staged : Pool}
      (sides : m.Swappable pool coin denomIn coin.denom p source target)
      (available : coin.amount < target.balance)
      (charged_pos : 0 < charged.raw)
      (sale : source.amountOut target charged p.swapFee = .ok out)
      (enough : coin.amount ≤ out)
      (within : charged ≤ maximum)
      (trade : p.trade ⟨denomIn, charged⟩ coin = .ok staged)
      (named : Text.IsWritable p.id) :
      Planned m ⟨sender, pool, .swapOut denomIn maximum coin⟩
        ⟨staged, ⟨.swap, pool, sender, [⟨denomIn, charged⟩], [coin]⟩, .amount charged⟩
  | join {sender : String} {pool : Int} {coin : Coin} {minimum : Option Fixed} {p : Pool}
      {joined : Pool.Join}
      (load : m.repository.load pool = .ok p)
      (active : p.isActive m.clock = .ok true)
      (joins : p.joinWith coin p.swapFee = .ok joined)
      (enough : ∀ least ∈ minimum, least ≤ joined.shares)
      (named : Text.IsWritable p.id) :
      Planned m ⟨sender, pool, .join [coin] minimum⟩
        ⟨joined.pool, ⟨.join, pool, sender, [coin], [⟨p.shareDenom, joined.shares⟩]⟩,
          .amount joined.shares⟩
  | exit {sender : String} {pool : Int} {shares : Fixed} {p : Pool} {left : Pool.Exit}
      (load : m.repository.load pool = .ok p)
      (exits : p.exit shares p.exitFee = .ok left)
      (named : Text.IsWritable p.id) :
      Planned m ⟨sender, pool, .exit shares⟩
        ⟨left.pool, ⟨.exit, pool, sender, [⟨p.shareDenom, shares⟩], left.coins⟩, .coins left.coins⟩

/-- A sale is planned as it was quoted. -/
theorem planned_swapIn {sender : String} {pool : Int} {coin : Coin} {denomOut : String}
    {minimum : Fixed} {plan : Plan} {s s' : Progress}
    (h : m.planSwapIn ⟨sender, pool, .swapIn coin denomOut minimum⟩ coin denomOut minimum s =
      (.ok plan, s')) :
    Planned m ⟨sender, pool, .swapIn coin denomOut minimum⟩ plan := by
  obtain ⟨⟨p, source, target⟩, s₁, hsides, h⟩ := Progress.decide_bind_eq_ok h
  obtain ⟨s₂, h⟩ := Progress.change_bind_eq_ok h
  obtain ⟨out, s₃, hsale, h⟩ := Progress.decide_bind_eq_ok h
  obtain ⟨_, s₄, henough, h⟩ := Progress.decide_bind_eq_ok h
  obtain ⟨s₅, h⟩ := Progress.change_bind_eq_ok h
  obtain ⟨staged, s₆, htrade, h⟩ := Progress.decide_bind_eq_ok h
  obtain ⟨s₇, h⟩ := Progress.change_bind_eq_ok h
  obtain ⟨_, s₈, hnamed, h⟩ := Progress.decide_bind_eq_ok h
  obtain rfl := Action.pure_eq_ok h
  exact .swapIn (swapSides_eq_ok hsides) hsale (by simpa using require_eq_ok.mp henough) htrade
    (requireWritable_eq_ok.mp hnamed)

/-- Nothing is bought for nothing. -/
theorem amountIn_pos {source target : Asset} {amount fee paid : Fixed}
    (h : target.amountIn source amount fee = .ok paid) : 0 < paid.raw := by
  rw [Asset.amountIn, bind_eq_ok] at h
  obtain ⟨_, _, h⟩ := h
  rw [bind_eq_ok] at h
  obtain ⟨_, _, h⟩ := h
  rw [bind_eq_ok] at h
  obtain ⟨_, _, h⟩ := h
  rw [bind_eq_ok] at h
  obtain ⟨paid', _, h⟩ := h
  rw [bind_eq_ok] at h
  obtain ⟨_, hpos, h⟩ := h
  rw [Decision.pure_eq_ok] at h
  subst h
  simpa using require_eq_ok.mp hpos

/-- A purchase is planned at what it was found to cost. -/
theorem planned_swapOut {sender : String} {pool : Int} {denomIn : String} {maximum : Fixed}
    {coin : Coin} {plan : Plan} {s s' : Progress}
    (h : m.planSwapOut ⟨sender, pool, .swapOut denomIn maximum coin⟩ denomIn maximum coin s =
      (.ok plan, s')) :
    Planned m ⟨sender, pool, .swapOut denomIn maximum coin⟩ plan := by
  obtain ⟨⟨p, source, target⟩, s₁, hsides, h⟩ := Progress.decide_bind_eq_ok h
  obtain ⟨_, s₂, havailable, h⟩ := Progress.decide_bind_eq_ok h
  obtain ⟨s₃, h⟩ := Progress.change_bind_eq_ok h
  obtain ⟨computed, s₄, hcomputed, h⟩ := Progress.decide_bind_eq_ok h
  rw [Action.bind_eq_ok] at h
  obtain ⟨charged, s₅, hcharged, h⟩ := h
  obtain ⟨_, s₆, hwithin, h⟩ := Progress.decide_bind_eq_ok h
  obtain ⟨s₇, h⟩ := Progress.change_bind_eq_ok h
  obtain ⟨staged, s₈, htrade, h⟩ := Progress.decide_bind_eq_ok h
  obtain ⟨s₉, h⟩ := Progress.change_bind_eq_ok h
  obtain ⟨_, s₁₀, hnamed, h⟩ := Progress.decide_bind_eq_ok h
  obtain rfl := Action.pure_eq_ok h
  -- what is charged is no longer what the curve gave, but it has been sold back
  obtain ⟨hle, out, henough, hsale⟩ := convergedInput_eq_ok hcharged
  have hpos : 0 < charged.raw := Int.lt_of_lt_of_le (amountIn_pos hcomputed) (Fixed.le_def.mp hle)
  exact .swapOut (swapSides_eq_ok hsides) (by simpa using require_eq_ok.mp havailable) hpos hsale
    henough (by simpa using require_eq_ok.mp hwithin) htrade (requireWritable_eq_ok.mp hnamed)

/-- A deposit is planned with the shares that it brings. -/
theorem planned_join {sender : String} {pool : Int} {coins : List Coin} {minimum : Option Fixed}
    {plan : Plan} {s s' : Progress}
    (h : m.planJoin ⟨sender, pool, .join coins minimum⟩ coins minimum s = (.ok plan, s')) :
    Planned m ⟨sender, pool, .join coins minimum⟩ plan := by
  obtain ⟨p, s₁, hpool, h⟩ := Progress.decide_bind_eq_ok h
  obtain ⟨s₂, h⟩ := Progress.change_bind_eq_ok h
  obtain ⟨joined, s₃, hjoined, h⟩ := Progress.decide_bind_eq_ok h
  -- a join may have no least number of shares, and then there is one decision less
  have hrest : (∀ least ∈ minimum, least ≤ joined.shares) ∧ ∃ s₄,
      (do Progress.advance ⟨"join_pool", pool, sender⟩ .computed
          Progress.decide (requireWritable p.id)
          Progress.advance ⟨"join_pool", pool, sender⟩ .staged
          return (⟨joined.pool, ⟨.join, pool, sender, coins, [⟨p.shareDenom, joined.shares⟩]⟩,
            .amount joined.shares⟩ : Plan)) s₄ = (Except.ok plan, s') := by
    cases minimum with
    | none => exact ⟨by simp, s₃, h⟩
    | some least =>
      obtain ⟨_, s₄, henough, h⟩ := Progress.decide_bind_eq_ok h
      exact ⟨by simpa using require_eq_ok.mp henough, s₄, h⟩
  obtain ⟨henough, s₄, h⟩ := hrest
  obtain ⟨s₅, h⟩ := Progress.change_bind_eq_ok h
  obtain ⟨_, s₆, hnamed, h⟩ := Progress.decide_bind_eq_ok h
  obtain ⟨s₇, h⟩ := Progress.change_bind_eq_ok h
  obtain rfl := Action.pure_eq_ok h
  obtain ⟨hload, hactive⟩ := poolToJoin_eq_ok hpool
  obtain ⟨coin, rfl, hwith⟩ := Pool.join_eq_ok hjoined
  exact .join hload hactive hwith henough (requireWritable_eq_ok.mp hnamed)

/-- A redemption is planned with the coins that it pays. -/
theorem planned_exit {sender : String} {pool : Int} {shares : Fixed} {plan : Plan} {s s' : Progress}
    (h : m.planExit ⟨sender, pool, .exit shares⟩ shares s = (.ok plan, s')) :
    Planned m ⟨sender, pool, .exit shares⟩ plan := by
  obtain ⟨p, s₁, hload, h⟩ := Progress.decide_bind_eq_ok h
  obtain ⟨s₂, h⟩ := Progress.change_bind_eq_ok h
  obtain ⟨left, s₃, hleft, h⟩ := Progress.decide_bind_eq_ok h
  obtain ⟨s₄, h⟩ := Progress.change_bind_eq_ok h
  obtain ⟨_, s₅, hnamed, h⟩ := Progress.decide_bind_eq_ok h
  obtain ⟨s₆, h⟩ := Progress.change_bind_eq_ok h
  obtain rfl := Action.pure_eq_ok h
  exact .exit hload hleft (requireWritable_eq_ok.mp hnamed)

/-- **Whatever is planned** is one of the four plans, with everything that it needs checked. -/
theorem planned_of_plan {r : Request} {plan : Plan} {s s' : Progress}
    (h : m.plan r s = (.ok plan, s')) : Planned m r plan := by
  obtain ⟨sender, pool, operation⟩ := r
  cases operation with
  | swapIn coin denomOut minimum => exact planned_swapIn h
  | swapOut denomIn maximum coin => exact planned_swapOut h
  | join coins minimum => exact planned_join h
  | exit shares => exact planned_exit h

/-- A pool of which something is planned can be named. -/
theorem Planned.isWritable {r : Request} {plan : Plan} (h : m.Planned r plan) {p : Pool}
    (hload : m.repository.load r.pool = .ok p) : Text.IsWritable p.id := by
  cases h with
  | swapIn sides =>
    cases sides.load.symm.trans hload
    assumption
  | swapOut sides =>
    cases sides.load.symm.trans hload
    assumption
  | join load =>
    cases load.symm.trans hload
    assumption
  | exit load =>
    cases load.symm.trans hload
    assumption

end Market

end WeightedMarket
