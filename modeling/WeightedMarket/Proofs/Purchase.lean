/-
  Buying is covered by selling.

  What a buyer is charged is found backwards along the curve and then raised until selling it brings
  what was bought.  So selling the same amount to the pool that was found is planned as well and brings
  at least as much, and every reserve that the purchase stages is at least what that sale would leave
  (`holds_shifted`).

  The first half of the module says when planning goes through: a valid pool takes every trade that
  leaves no reserve negative (`trade_eq_shifted`), and a sale that is quoted is planned
  (`planSwapIn_of_swappable`).
-/
import WeightedMarket.Proofs.Reserves

namespace WeightedMarket

open Decision

/-! ## Trades that go through -/

namespace Pool

variable {p : Pool}

/-- An asset with a new balance is checked if the balance is not negative. -/
theorem checked_rebalanced {balances : List (String × Fixed)} {a : Asset} (ha : a.Valid)
    (hbalances : ∀ e ∈ balances, 0 ≤ e.2.raw) :
    (rebalanced balances a).checked = .ok (rebalanced balances a) := by
  have hvalid : (rebalanced balances a).Valid := by
    unfold rebalanced
    split
    · next b hb =>
      obtain ⟨e, he, rfl⟩ := Option.map_eq_some_iff.mp hb
      have hmem := List.mem_reverse.mp (List.mem_of_find?_eq_some he)
      exact ⟨ha.denom_ne, hbalances e hmem, ha.weight_pos, ha.decimals⟩
    · exact ha
  rw [Asset.checked, Asset.check_eq_ok.mpr hvalid]
  rfl

/-- New balances of a valid pool's own assets are taken if none of them is negative. -/
theorem withBalances_of_nonneg (hp : p.Valid) (balances : List (String × Fixed))
    (hdenoms : ∀ e ∈ balances, e.1 ∈ p.denoms) (hbalances : ∀ e ∈ balances, 0 ≤ e.2.raw) :
    p.withBalances balances = .ok { p with assets := p.assets.map (rebalanced balances) } := by
  have hknown : (balances.forM fun b => discard (p.asset b.1)) = .ok () := by
    rw [forM_eq_ok]
    intro e he
    exact discard_eq_ok.mpr (exists_asset_of_mem_denoms (hdenoms e he))
  have hassets : p.assets.mapM (fun a => (rebalanced balances a).checked) =
      .ok (p.assets.map (rebalanced balances)) :=
    mapM_of_ok fun a ha => checked_rebalanced (hp.assets a ha) hbalances
  have hvalid : ∀ b ∈ p.assets.map (rebalanced balances), b.Valid := by
    intro b hb
    obtain ⟨a, ha, rfl⟩ := List.mem_map.mp hb
    exact (Asset.checked_eq_ok (checked_rebalanced (hp.assets a ha) hbalances)).2
  -- the rules of the pool itself do not look at balances
  have hstaged : ({ p with assets := p.assets.map (rebalanced balances) } : Pool).Valid :=
    { assets := hvalid
      two_le := by rw [List.length_map]; exact hp.two_le
      nodup := by simpa [denoms, Function.comp_def] using hp.nodup
      shares_pos := hp.shares_pos
      shareDecimals := hp.shareDecimals
      swapFee := hp.swapFee
      exitFee := hp.exitFee
      window := hp.window }
  have hcheck := (check_eq_ok hstaged.assets hstaged.window).mpr hstaged
  simp only [withBalances, hknown, hassets, ok_bind, Pool.checked, hcheck]
  rfl

/-- A supply that is positive is taken. -/
theorem withTotalShares_of_pos (hp : p.Valid) {shares : Fixed} (h : 0 < shares.raw) :
    p.withTotalShares shares = .ok { p with totalShares := shares } := by
  have hstaged : ({ p with totalShares := shares } : Pool).Valid := { hp with shares_pos := h }
  rw [withTotalShares, Pool.checked, (check_eq_ok hstaged.assets hstaged.window).mpr hstaged]
  rfl

/-- **A trade goes through** if the pool has what it gives, and stages the pool with one coin added
and the other taken away. -/
theorem trade_eq_shifted (taken given : Coin) {source target : Asset} (hp : p.Valid)
    (hne : taken.denom ≠ given.denom) (hsource : p.asset taken.denom = .ok source)
    (htarget : p.asset given.denom = .ok target) (htaken : 0 ≤ taken.amount.raw)
    (hgiven : given.amount.raw ≤ target.balance.raw) :
    p.trade taken given = .ok
      (p.shifted (fun d => Coin.total [taken] d - Coin.total [given] d) 0) := by
  obtain ⟨hsmem, hsdenom⟩ := mem_of_asset hsource
  obtain ⟨htmem, htdenom⟩ := mem_of_asset htarget
  have hsides : p.sides taken.denom given.denom = .ok (source, target) := by
    simp only [sides, hsource, htarget, require_eq_ok.mpr (decide_eq_true hne), ok_bind]
    rfl
  have hleft : 0 ≤ (target.balance - given.amount).raw := Int.sub_nonneg_of_le hgiven
  have hpaid : 0 ≤ (source.balance + taken.amount).raw :=
    Int.add_nonneg (hp.assets source hsmem).balance_nonneg htaken
  have hbalances := withBalances_of_nonneg hp
    [(source.denom, source.balance + taken.amount), (target.denom, target.balance - given.amount)]
    (by rw [List.forall_mem_cons, List.forall_mem_singleton, hsdenom, htdenom]
        exact ⟨mem_denoms_of_asset hsource, mem_denoms_of_asset htarget⟩)
    (by rw [List.forall_mem_cons, List.forall_mem_singleton]
        exact ⟨hpaid, hleft⟩)
  have htrade : ∃ q, p.trade taken given = .ok q := by
    rw [trade, hsides, ok_bind]
    simp only [require_eq_ok.mpr (decide_eq_true hleft), ok_bind]
    exact ⟨_, hbalances⟩
  obtain ⟨q, htrade⟩ := htrade
  rw [htrade, (trade_eq_ok hp htrade).2]

end Pool

namespace Market

variable {m m' : Market} {p : Pool} {source target : Asset}

theorem Progress.decide_ok {α β : Type} (a : α) (f : α → Action Progress β) :
    Progress.decide (.ok a) >>= f = f a := rfl

/-! ## Sales that are planned -/

/-- What a swap has found is found again, for the other coin of it too. -/
theorem Swappable.swapSides_eq {pool : Int} {traded traded' : Coin} {denomIn denomOut : String}
    (h : m.Swappable pool traded denomIn denomOut p source target) (hpos : 0 < traded'.amount.raw) :
    m.swapSides pool traded' denomIn denomOut = .ok (p, source, target) := by
  have hactive : m.requireActive p "swap" = .ok () := by
    rw [requireActive, h.active]
    rfl
  simp only [swapSides, requirePositive, require_eq_ok.mpr (decide_eq_true h.denom_ne),
    require_eq_ok.mpr (decide_eq_true hpos), h.load, h.source, h.target, hactive, ok_bind]
  rfl

/-- **A sale that is quoted is planned**: if its denominations can be swapped, the quote is at least the
minimum, and the pool is valid and can be named. -/
theorem planSwapIn_of_swappable {pool : Int} (sender : String) {traded : Coin} (coin : Coin)
    {denomOut : String} {minimum out : Fixed} (hp : p.Valid) (hnamed : Text.IsWritable p.id)
    (h : m.Swappable pool traded coin.denom denomOut p source target) (hpos : 0 < coin.amount.raw)
    (hsale : source.amountOut target coin.amount p.swapFee = .ok out) (henough : minimum ≤ out) :
    ∃ progress, m.plan ⟨sender, pool, .swapIn coin denomOut minimum⟩ Progress.start =
      (.ok ⟨p.shifted (fun d => Coin.total [coin] d - Coin.total [⟨denomOut, out⟩] d) 0,
        ⟨.swap, pool, sender, [coin], [⟨denomOut, out⟩]⟩, .amount out⟩, progress) := by
  obtain ⟨power, hquote⟩ := Asset.amountOut_eq_ok hsale
  have htarget := (hp.assets target (Pool.mem_of_asset h.target).1).balance_nonneg
  have htrade := Pool.trade_eq_shifted coin ⟨denomOut, out⟩ hp h.denom_ne h.source h.target
    (Int.le_of_lt hpos) (hquote.le_balance htarget).1
  have hminimum : require (Decidable.decide (minimum ≤ out)) (.belowMinimum denomOut out minimum) =
      .ok () := require_eq_ok.mpr (decide_eq_true henough)
  simp only [plan, planSwapIn, h.swapSides_eq hpos, hsale, hminimum, htrade,
    requireWritable_eq_ok.mpr hnamed, Progress.decide_ok]
  exact ⟨_, rfl⟩

/-! ## Purchases -/

/-- What a purchase that was planned has computed: the input that the curve asks for, what is charged
for it, and what selling that would bring. -/
structure Purchased (m : Market) (r : Request) (denomIn : String) (maximum : Fixed) (coin : Coin)
    (p : Pool) (source target : Asset) (computed charged out : Fixed) (plan : Plan) : Prop where
  sides : m.Swappable r.pool coin denomIn coin.denom p source target
  available : coin.amount < target.balance
  computed_eq : target.amountIn source coin.amount p.swapFee = .ok computed
  charged_eq : ∃ s s', m.convergedInput p source target computed coin s = (.ok charged, s')
  computed_le : computed ≤ charged
  sale : source.amountOut target charged p.swapFee = .ok out
  enough : coin.amount ≤ out
  within : charged ≤ maximum
  trade : p.trade ⟨denomIn, charged⟩ coin = .ok plan.pool
  named : Text.IsWritable p.id
  receipt_eq : plan.receipt = .amount charged

theorem planSwapOut_eq_ok {r : Request} {denomIn : String} {maximum : Fixed} {coin : Coin}
    {plan : Plan} {s s' : Progress}
    (h : m.planSwapOut r denomIn maximum coin s = (.ok plan, s')) :
    ∃ p source target computed charged out,
      m.Purchased r denomIn maximum coin p source target computed charged out plan := by
  obtain ⟨⟨p, source, target⟩, s₁, hsides, h⟩ := Progress.decide_bind_eq_ok h
  obtain ⟨_, s₂, havailable, h⟩ := Progress.decide_bind_eq_ok h
  obtain ⟨s₃, h⟩ := Progress.change_bind_eq_ok h
  obtain ⟨computed, s₄, hcomputed, h⟩ := Progress.decide_bind_eq_ok h
  rw [Action.bind_eq_ok] at h
  obtain ⟨charged, s₅, hcharged, h⟩ := h
  obtain ⟨_, s₆, hwithin, h⟩ := Progress.decide_bind_eq_ok h
  obtain ⟨s₇, h⟩ := Progress.change_bind_eq_ok h
  obtain ⟨staged, s₈, htrade, h⟩ := Progress.decide_bind_eq_ok h
  obtain ⟨s₉, h⟩ := Progress.change_bind_eq_ok h
  obtain ⟨_, s₁₀, hnamed, h⟩ := Progress.decide_bind_eq_ok h
  obtain rfl := Action.pure_eq_ok h
  obtain ⟨hle, out, henough, hsale⟩ := convergedInput_eq_ok hcharged
  exact ⟨p, source, target, computed, charged, out,
    { sides := swapSides_eq_ok hsides
      available := by simpa using require_eq_ok.mp havailable
      computed_eq := hcomputed
      charged_eq := ⟨s₄, s₅, hcharged⟩
      computed_le := hle
      sale := hsale
      enough := henough
      within := by simpa using require_eq_ok.mp hwithin
      trade := htrade
      named := requireWritable_eq_ok.mp hnamed
      receipt_eq := rfl }⟩

theorem Purchased.charged_pos {r : Request} {denomIn : String} {maximum : Fixed} {coin : Coin}
    {computed charged out : Fixed} {plan : Plan}
    (h : m.Purchased r denomIn maximum coin p source target computed charged out plan) :
    0 < charged.raw :=
  Int.lt_of_lt_of_le (amountIn_pos h.computed_eq) (Fixed.le_def.mp h.computed_le)

/-- What was performed was attempted, and answered the plan's receipt. -/
theorem perform_eq_ok {r : Request} {receipt : Receipt} (h : perform r m = (.ok receipt, m')) :
    ∃ plan m₁, attempt r m = (.ok plan, m₁) ∧ receipt = plan.receipt := by
  rw [perform, Action.bind_eq_ok] at h
  obtain ⟨plan, m₁, hattempt, h⟩ := h
  rw [Action.bind_eq_ok] at h
  obtain ⟨_, _, _, h⟩ := h
  exact ⟨plan, m₁, hattempt, (Action.pure_eq_ok h).symm⟩

theorem plan_of_attempt {r : Request} {plan : Plan} (h : attempt r m = (.ok plan, m')) :
    ∃ progress, m.plan r Progress.start = (.ok plan, progress) := by
  unfold attempt at h
  rcases hplan : m.plan r Progress.start with ⟨f | plan', progress⟩
  · rw [hplan] at h
    cases h
  · rw [hplan] at h
    dsimp only at h
    split at h
    · cases h
    · cases h
      exact ⟨progress, rfl⟩

/-- The assets of two pools are the same, in the same order, and every reserve of the first is at least
that of the second. -/
def Holds (bought sold : Pool) : Prop :=
  List.Forall₂ (fun b s => b.denom = s.denom ∧ s.balance ≤ b.balance) bought.assets sold.assets

/-- Giving less of the same coin leaves more. -/
theorem holds_shifted {taken given given' : Coin} (hdenom : given.denom = given'.denom)
    (hle : given.amount ≤ given'.amount) :
    Holds (p.shifted (fun d => Coin.total [taken] d - Coin.total [given] d) 0)
      (p.shifted (fun d => Coin.total [taken] d - Coin.total [given'] d) 0) := by
  have hle := Fixed.le_def.mp hle
  rw [Holds, Pool.shifted, Pool.shifted, List.forall₂_map_left_iff, List.forall₂_map_right_iff,
    List.forall₂_same]
  intro a _
  refine ⟨rfl, ?_⟩
  rw [Fixed.le_def]
  simp only [Coin.total_cons, Coin.total_nil, hdenom]
  split <;> split <;> omega

/-- **Buying is covered by selling.**  A purchase that is performed on a valid pool answers a positive
amount within the buyer's maximum, at least what the curve asks for.  Selling that amount to the loaded
pool is quoted at least what was bought, and for every minimum up to the quote the sale is planned; and
the purchase stages at least what the sale would leave of every reserve. -/
theorem purchase_covered_by_sale {sender : String} {pool : Int} {denomIn : String} {maximum : Fixed}
    {coin : Coin} {receipt : Receipt} (hp : p.Valid) (hload : m.repository.load pool = .ok p)
    (h : perform ⟨sender, pool, .swapOut denomIn maximum coin⟩ m = (.ok receipt, m')) :
    ∃ charged computed out source target plan m₁,
      receipt = .amount charged ∧ 0 < charged.raw ∧ charged ≤ maximum ∧
      p.asset denomIn = .ok source ∧ p.asset coin.denom = .ok target ∧
      target.amountIn source coin.amount p.swapFee = .ok computed ∧ computed ≤ charged ∧
      source.amountOut target charged p.swapFee = .ok out ∧ coin.amount ≤ out ∧
      attempt ⟨sender, pool, .swapOut denomIn maximum coin⟩ m = (.ok plan, m₁) ∧
      ∀ minimum, minimum ≤ out → ∃ sold progress,
        m.plan ⟨sender, pool, .swapIn ⟨denomIn, charged⟩ coin.denom minimum⟩ Progress.start =
            (.ok sold, progress) ∧
          sold.receipt = .amount out ∧ Holds plan.pool sold.pool := by
  obtain ⟨plan, m₁, hattempt, rfl⟩ := perform_eq_ok h
  obtain ⟨progress, hplan⟩ := plan_of_attempt hattempt
  obtain ⟨p', source, target, computed, charged, out, hpurchase⟩ := planSwapOut_eq_ok hplan
  cases hpurchase.sides.load.symm.trans hload
  have hpos := hpurchase.charged_pos
  refine ⟨charged, computed, out, source, target, plan, m₁, hpurchase.receipt_eq, hpos,
    hpurchase.within, hpurchase.sides.source, hpurchase.sides.target, hpurchase.computed_eq,
    hpurchase.computed_le, hpurchase.sale, hpurchase.enough, hattempt, ?_⟩
  intro minimum hminimum
  obtain ⟨progress', hsold⟩ := planSwapIn_of_swappable sender ⟨denomIn, charged⟩ hp
    hpurchase.named hpurchase.sides hpos hpurchase.sale hminimum
  refine ⟨_, progress', hsold, rfl, ?_⟩
  rw [(Pool.trade_eq_ok hp hpurchase.trade).2]
  exact holds_shifted rfl hpurchase.enough

/-- Ten coins are bought from `evenPool`.  The curve asks for 11.111111, which does not bring them yet
and is raised by two units. -/
def buyTen : Request := ⟨"bob", 1, .swapOut "a" (.ofInt 12) ⟨"b", .ofInt 10⟩⟩

/-- The market of `evenPool`, with a buyer who can pay. -/
def buyersMarket : Market := keeping [evenPool] (evenLedger.mint "bob" ⟨"a", .ofInt 12⟩) none

/-- What is charged for `buyTen` is what selling it covers. -/
theorem buyTen_covered : (perform buyTen buyersMarket).1 = .ok (.amount ⟨11111113000000000000⟩) ∧
    ∃ out sold progress, Fixed.ofInt 10 ≤ out ∧
      buyersMarket.plan ⟨"bob", 1, .swapIn ⟨"a", ⟨11111113000000000000⟩⟩ "b" out⟩ Progress.start =
        (.ok sold, progress) ∧ sold.receipt = .amount out := by
  have hperform : (perform buyTen buyersMarket).1 = .ok (.amount ⟨11111113000000000000⟩) := by
    decide +kernel
  obtain ⟨charged, _, out, _, _, _, _, hcharged, _, _, _, _, _, _, _, henough, _, hsold⟩ :=
    purchase_covered_by_sale evenPool_valid (show buyersMarket.repository.load 1 = .ok evenPool from rfl)
      (Prod.ext hperform rfl)
  cases hcharged
  obtain ⟨sold, progress, hplan, hreceipt, _⟩ := hsold out (Int.le_refl _)
  exact ⟨hperform, out, sold, progress, henough, hplan, hreceipt⟩

end Market

end WeightedMarket
