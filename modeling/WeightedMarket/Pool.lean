/-
  Weighted pools.

  A pool holds two or more assets, each with a reserve, a weight and a precision, and has issued
  shares on them.  Pools are values: an operation never changes one but answers a new one.

  `Asset.Valid` and `Pool.Valid` say what every pool of the market satisfies; `check` refuses the
  first rule that a pool breaks, in a fixed order, and accepts exactly the valid ones
  (`Asset.check_eq_ok`, `Pool.check_eq_ok`).
-/
import WeightedMarket.Window
import WeightedMarket.Fixed.Checked

namespace WeightedMarket

/-- An asset of a pool.  Amounts of it are whole numbers of its last decimal place. -/
structure Asset where
  denom : String
  balance : Fixed
  weight : Fixed
  decimals : Int
  deriving DecidableEq, Inhabited, Repr

/-- A pool: its assets in a fixed order, the shares issued on them, and its terms. -/
structure Pool where
  id : Int
  assets : List Asset
  totalShares : Fixed
  swapFee : Fixed
  exitFee : Fixed
  window : Option Window
  shareDecimals : Int
  deriving DecidableEq, Inhabited, Repr

/-! ## Validity -/

/-- A fee is a proportion below one. -/
def Fixed.IsFee (fee : Fixed) : Prop := 0 ≤ fee.raw ∧ fee.raw < Fixed.scale

instance (fee : Fixed) : Decidable fee.IsFee := inferInstanceAs (Decidable (_ ∧ _))

/-- A precision is at most eighteen places. -/
def IsPrecision (decimals : Int) : Prop := 0 ≤ decimals ∧ decimals ≤ 18

instance (decimals : Int) : Decidable (IsPrecision decimals) := inferInstanceAs (Decidable (_ ∧ _))

/-- What every asset of a pool satisfies. -/
structure Asset.Valid (a : Asset) : Prop where
  denom_ne : a.denom ≠ ""
  balance_nonneg : 0 ≤ a.balance.raw
  weight_pos : 0 < a.weight.raw
  decimals : IsPrecision a.decimals

instance Asset.decidableValid (a : Asset) : Decidable a.Valid :=
  decidable_of_iff (a.denom ≠ "" ∧ 0 ≤ a.balance.raw ∧ 0 < a.weight.raw ∧ IsPrecision a.decimals)
    ⟨fun ⟨h₁, h₂, h₃, h₄⟩ => ⟨h₁, h₂, h₃, h₄⟩, fun h => ⟨h.1, h.2, h.3, h.4⟩⟩

/-- What every window of a pool satisfies. -/
def Window.Valid (w : Window) : Prop :=
  ∀ a ∈ w.opens, ∀ b ∈ w.closes, Moment.before? a b = some true

instance Window.decidableValid (w : Window) : Decidable w.Valid :=
  inferInstanceAs (Decidable (∀ a ∈ w.opens, ∀ b ∈ w.closes, Moment.before? a b = some true))

/-- The denominations of a pool's assets, in their order. -/
def Pool.denoms (p : Pool) : List String := p.assets.map (·.denom)

/-- What every pool of the market satisfies. -/
structure Pool.Valid (p : Pool) : Prop where
  assets : ∀ a ∈ p.assets, a.Valid
  two_le : 2 ≤ p.assets.length
  nodup : p.denoms.Nodup
  shares_pos : 0 < p.totalShares.raw
  shareDecimals : IsPrecision p.shareDecimals
  swapFee : p.swapFee.IsFee
  exitFee : p.exitFee.IsFee
  window : ∀ w ∈ p.window, w.Valid

instance Pool.decidableValid (p : Pool) : Decidable p.Valid :=
  decidable_of_iff ((∀ a ∈ p.assets, a.Valid) ∧ 2 ≤ p.assets.length ∧ p.denoms.Nodup ∧
      0 < p.totalShares.raw ∧ IsPrecision p.shareDecimals ∧ p.swapFee.IsFee ∧ p.exitFee.IsFee ∧
      ∀ w ∈ p.window, w.Valid)
    ⟨fun ⟨h₁, h₂, h₃, h₄, h₅, h₆, h₇, h₈⟩ => ⟨h₁, h₂, h₃, h₄, h₅, h₆, h₇, h₈⟩,
      fun h => ⟨h.1, h.2, h.3, h.4, h.5, h.6, h.7, h.8⟩⟩

/-- No rule of pools looks at their numbers. -/
theorem Pool.Valid.renumbered {p : Pool} (h : p.Valid) (id : Int) : Pool.Valid { p with id } := { h with }

/-- Refuses an asset that breaks a rule. -/
def Asset.check (a : Asset) : Except Failure Unit := do
  require (decide (a.denom ≠ "")) (.badPool .emptyDenom)
  require (decide (0 ≤ a.balance.raw)) (.badPool (.negativeBalance a.denom))
  require (decide (0 < a.weight.raw)) (.badPool (.weightNotPositive a.denom))
  require (decide (IsPrecision a.decimals)) (.badPool (.assetDecimals a.denom))

/-- Refuses a pool that breaks a rule of its own; its assets and its window are checked where they
are made. -/
def Pool.check (p : Pool) : Except Failure Unit := do
  require (decide (2 ≤ p.assets.length)) (.badPool (.tooFewAssets p.id))
  require (decide p.denoms.Nodup) (.badPool (.duplicateDenoms p.id p.denoms))
  require (decide (0 < p.totalShares.raw)) (.badPool (.sharesNotPositive p.id))
  require (decide (IsPrecision p.shareDecimals)) (.badPool (.shareDecimals p.id))
  require (decide p.swapFee.IsFee) (.namedFeeRange "swap_fee" p.swapFee)
  require (decide p.exitFee.IsFee) (.namedFeeRange "exit_fee" p.exitFee)

/-- A window whose rules hold. -/
def Window.checked (w : Window) : Except Failure Window := do
  w.check
  return w

/-- An asset whose rules hold. -/
def Asset.checked (a : Asset) : Except Failure Asset := do
  a.check
  return a

/-- A pool whose own rules hold. -/
def Pool.checked (p : Pool) : Except Failure Pool := do
  p.check
  return p

theorem require_eq_ok {c : Bool} {f : Failure} : require c f = .ok () ↔ c = true := by
  cases c <;> simp [require, refuse]

/-- Two checks in a row accept what both accept. -/
theorem check_seq_eq_ok {a b : Except Failure Unit} :
    (do a; b) = .ok () ↔ a = .ok () ∧ b = .ok () := by
  cases a <;> simp [bind, Except.bind]

/-- The check of an asset accepts exactly the valid ones. -/
theorem Asset.check_eq_ok {a : Asset} : a.check = .ok () ↔ a.Valid := by
  simp only [Asset.check, check_seq_eq_ok, require_eq_ok, decide_eq_true_eq]
  exact ⟨fun ⟨h₁, h₂, h₃, h₄⟩ => ⟨h₁, h₂, h₃, h₄⟩, fun h => ⟨h.1, h.2, h.3, h.4⟩⟩

/-- The check of a window accepts exactly the valid ones. -/
theorem Window.check_eq_ok {w : Window} : w.check = .ok () ↔ w.Valid := by
  rcases w with ⟨_ | a, _ | b⟩ <;> simp [Window.check, Window.Valid, pure, Except.pure]
  simp only [Moment.before]
  cases Moment.before? a b with
  | none => simp [refuse, bind, Except.bind]
  | some answer => cases answer <;> simp [bind, Except.bind, require, refuse]

/-- The check of a pool with valid assets and a valid window accepts exactly the valid ones. -/
theorem Pool.check_eq_ok {p : Pool} (assets : ∀ a ∈ p.assets, a.Valid) (window : ∀ w ∈ p.window, w.Valid) :
    p.check = .ok () ↔ p.Valid := by
  simp only [Pool.check, check_seq_eq_ok, require_eq_ok, decide_eq_true_eq]
  exact ⟨fun ⟨h₁, h₂, h₃, h₄, h₅, h₆⟩ => ⟨assets, h₁, h₂, h₃, h₄, h₅, h₆, window⟩,
    fun h => ⟨h.two_le, h.nodup, h.shares_pos, h.shareDecimals, h.swapFee, h.exitFee⟩⟩

/-! ## What a pool is asked -/

namespace Pool

/-- The account that holds the pool's reserves.  Like the denomination of its shares it can be
written only if the pool's number can. -/
def address (p : Pool) : String := s!"pool/{p.id}"

/-- The denomination of the pool's shares. -/
def shareDenom (p : Pool) : String := s!"gamm/pool/{p.id}"

/-- The asset of a denomination. -/
def asset? (p : Pool) (denom : String) : Option Asset := p.assets.find? (·.denom == denom)

/-- The asset of a denomination, or a refusal. -/
def asset (p : Pool) (denom : String) : Except Failure Asset :=
  match p.asset? denom with
  | some a => .ok a
  | none => refuse (.unknownDenom p.id denom)

def hasAsset (p : Pool) (denom : String) : Bool := p.assets.any (·.denom == denom)

/-- The sum of the weights. -/
def totalWeight (p : Pool) : Fixed := p.assets.foldl (fun sum a => sum + a.weight) Fixed.zero

/-- An asset's part of the total weight. -/
def normalizedWeight (p : Pool) (denom : String) : Except Failure Fixed := do
  (← p.asset denom).weight.divide p.totalWeight

/-- Whether the pool accepts trades at a moment. -/
def isActive (p : Pool) (now : Moment) : Except Failure Bool :=
  match p.window with
  | none => .ok true
  | some w => w.contains now

/-- The last balance that a list of new balances gives a denomination. -/
def newBalance? (balances : List (String × Fixed)) (denom : String) : Option Fixed :=
  (balances.reverse.find? (·.1 == denom)).map (·.2)

/-- An asset with the balance that a list of new balances gives it. -/
def rebalanced (balances : List (String × Fixed)) (a : Asset) : Asset :=
  match newBalance? balances a.denom with
  | some b => { a with balance := b }
  | none => a

/-- The pool with some balances replaced; of several for one denomination the last counts. -/
def withBalances (p : Pool) (balances : List (String × Fixed)) : Except Failure Pool := do
  balances.forM fun b => discard (p.asset b.1)
  let assets ← p.assets.mapM fun a => (rebalanced balances a).checked
  Pool.checked { p with assets }

/-- The pool with another number of shares. -/
def withTotalShares (p : Pool) (shares : Fixed) : Except Failure Pool :=
  Pool.checked { p with totalShares := shares }

end Pool

end WeightedMarket
