/-
  Quotes that are executed.

  A quote asks the curve and nothing else; a trade checks its amounts, may raise what a buyer is
  charged, and then has to be settled.  What is quoted for a sale is what the sale brings
  (`swapped_of_quoteSale`): the curve refuses by itself to sell nothing or less, since powers stay on
  their side of one.

  What is quoted for a purchase is truncated, and selling it may bring less than was asked for.  The
  market then charges more, or finds nothing that it could charge: `Pool.charge?` is what it comes to,
  with nothing written down, and a purchase goes through exactly for the maxima that allow it.  So a
  purchase can be executed at its quote exactly if selling the quote brings the coin (`quotes_execute`).
-/
import WeightedMarket.Proofs.Purchase
import WeightedMarket.Proofs.Grant
import WeightedMarket.Proofs.Power.Side
import WeightedMarket.Proofs.Text.Numerals

namespace WeightedMarket

open Decision

/-! ## Trades of something -/

namespace Asset

variable {source target : Asset} {amount fee power out paid : Fixed}

/-- **Nothing is brought by selling nothing.** -/
theorem Sale.amount_pos (h : source.Sale target amount fee power out)
    (htarget : 0 ≤ target.balance.raw) : 0 < amount.raw := by
  by_contra hnone
  -- a reserve that has not grown has a power of at least one, which releases nothing
  have hkept : (amount.mul (Fixed.one - fee)).raw ≤ 0 :=
    Fixed.raw_mul_nonpos (Int.not_lt.mp hnone) h.isFee.complement_pos.le
  have hle : (source.replenished amount fee).raw ≤ source.balance.raw := by
    rw [replenished, Fixed.raw_add]
    omega
  have hpower := Fixed.scale_le_raise (Fixed.scale_le_raw_quo h.replenished_pos hle) h.power_eq
  obtain ⟨_, hrest⟩ := Fixed.pos_of_raw_mul_pos htarget h.released_pos
  have hone : (Fixed.one - power).raw = Fixed.scale - power.raw := rfl
  omega

/-- What a quoted purchase has checked and computed. -/
structure Purchase (target source : Asset) (amount fee power paid : Fixed) : Prop where
  isFee : fee.IsFee
  available : amount < target.balance
  power_eq : (target.balance.quo (target.balance - amount)).raise
    (target.weight.quo source.weight) = .ok power
  paid_eq : paid = ((-source.balance.mul (Fixed.one - power)).quo (Fixed.one - fee)).truncateTo
    source.decimals.toNat
  paid_pos : 0 < paid.raw

theorem amountIn_eq_ok (h : target.amountIn source amount fee = .ok paid) :
    ∃ power, target.Purchase source amount fee power paid := by
  have hpos := Market.amountIn_pos h
  rw [amountIn, bind_eq_ok] at h
  obtain ⟨_, havailable, h⟩ := h
  rw [bind_eq_ok] at h
  obtain ⟨d, hd, h⟩ := h
  rw [bind_eq_ok] at h
  obtain ⟨gross, hgross, h⟩ := h
  rw [bind_eq_ok] at h
  obtain ⟨paid', hpaid, h⟩ := h
  rw [bind_eq_ok] at h
  obtain ⟨_, _, h⟩ := h
  rw [pure_eq_ok] at h
  subst h
  obtain ⟨hfee, rfl⟩ := Fee.grossUp_eq_ok.mp hgross
  obtain ⟨_, power, hpower, rfl⟩ := Curve.delta_eq_ok hd
  exact ⟨power,
    { isFee := hfee
      available := by simpa using require_eq_ok.mp havailable
      power_eq := hpower
      paid_eq := Fixed.truncate_eq_truncateTo hpaid
      paid_pos := hpos }⟩

/-- **Nothing is asked for buying nothing.** -/
theorem Purchase.amount_pos (h : target.Purchase source amount fee power paid)
    (hsource : 0 ≤ source.balance.raw) (htarget : 0 ≤ target.balance.raw) : 0 < amount.raw := by
  by_contra hnone
  -- a reserve that has not shrunk has a power of at most one, which asks for nothing
  have hle : target.balance.raw ≤ (target.balance - amount).raw := by
    rw [Fixed.raw_sub]
    omega
  have hleft : 0 < (target.balance - amount).raw := Int.sub_pos_of_lt h.available
  have hpower := Fixed.raise_le_scale (Fixed.raw_quo_le_scale htarget hleft hle) h.power_eq
  have hgiven : 0 ≤ (source.balance.mul (Fixed.one - power)).raw :=
    Fixed.raw_mul_nonneg hsource (Int.sub_nonneg_of_le hpower)
  have hpaid := Fixed.truncateTo_nonpos (Fixed.raw_quo_nonpos
    (a := -source.balance.mul (Fixed.one - power)) (Int.neg_nonpos_of_nonneg hgiven)
    h.isFee.complement_pos) source.decimals.toNat
  rw [← h.paid_eq] at hpaid
  exact absurd h.paid_pos (Int.not_lt.mpr hpaid)

end Asset

/-! ## What a purchase comes to -/

section

variable {σ τ : Type} {forward : Fixed → Action σ (Option Fixed)}
  {forward' : Fixed → Action τ (Option Fixed)}

/-- What one forward direction brings, the other brings too, in whatever state they are asked. -/
def Brings (forward : Fixed → Action σ (Option Fixed)) (forward' : Fixed → Action τ (Option Fixed)) :
    Prop :=
  ∀ amount out s s' t, forward amount s = (.ok (some out), s') →
    ∃ t', forward' amount t = (.ok (some out), t')

/-- A raise that suffices for one forward direction is found with the other. -/
theorem raiseInput_brings (h : Brings forward forward') {start want : Fixed} {found : Fixed × Fixed}
    {left : Nat} {bump : Fixed} {s s' : σ} (t : τ)
    (hfound : raiseInput forward start want left bump s = (.ok (some found), s')) :
    ∃ t', raiseInput forward' start want left bump t = (.ok (some found), t') := by
  induction left generalizing bump s t with
  | zero =>
    rw [raiseInput] at hfound
    cases Action.pure_eq_ok hfound
  | succ left ih =>
    rw [raiseInput, Action.bind_eq_ok] at hfound
    obtain ⟨tried, s₁, htried, hfound⟩ := hfound
    cases tried with
    | none => cases Action.pure_eq_ok hfound
    | some out =>
      obtain ⟨t₁, htried'⟩ := h _ out s s₁ t htried
      simp only [raiseInput, Action.bind_apply, htried']
      dsimp only at hfound
      by_cases henough : want ≤ out
      · rw [if_pos henough] at hfound ⊢
        exact ⟨t₁, by rw [Action.pure_eq_ok hfound]; rfl⟩
      · rw [if_neg henough] at hfound ⊢
        exact ih t₁ hfound

/-- What one forward direction converges to, the other converges to as well. -/
theorem converge_brings (h : Brings forward forward') {start want : Fixed} {decimals attempts : Int}
    {found : Fixed × Fixed} {s s' : σ} (t : τ)
    (hfound : converge forward start want decimals attempts s = (.ok (some found), s')) :
    ∃ t', converge forward' start want decimals attempts t = (.ok (some found), t') := by
  rw [converge, Action.bind_eq_ok] at hfound
  obtain ⟨tried, s₁, htried, hfound⟩ := hfound
  cases tried with
  | none => cases Action.pure_eq_ok hfound
  | some out =>
    obtain ⟨t₁, htried'⟩ := h _ out s s₁ t htried
    simp only [converge, Action.bind_apply, htried']
    dsimp only at hfound
    by_cases henough : want ≤ out
    · rw [if_pos henough] at hfound ⊢
      exact ⟨t₁, by rw [Action.pure_eq_ok hfound]; rfl⟩
    · rw [if_neg henough] at hfound ⊢
      rw [Action.bind_eq_ok] at hfound
      obtain ⟨bump, s₂, hbump, hfound⟩ := hfound
      cases congrArg Prod.snd hbump
      have hbump : firstBump start want out decimals = .ok bump := congrArg Prod.fst hbump
      simp only [Action.bind_apply, Action.decide, hbump]
      exact raiseInput_brings h t₁ hfound

end

/-- What a sale brings, with nothing written down. -/
def Asset.brings (source target : Asset) (fee amount : Fixed) : Action Unit (Option Fixed) :=
  return (source.amountOut target amount fee).toOption

/-- An input brings what its sale is quoted at. -/
theorem Asset.brings_eq_some {source target : Asset} {fee amount out : Fixed} {s s' : Unit} :
    source.brings target fee amount s = (.ok (some out), s') ↔
      source.amountOut target amount fee = .ok out := by
  show ((Except.ok (source.amountOut target amount fee).toOption, s) :
    Except Failure (Option Fixed) × Unit) = _ ↔ _
  cases source.amountOut target amount fee with
  | error f => simp [Except.toOption]
  | ok out' => simp [Except.toOption]

/-- What buying a coin comes to: the quoted amount, raised until selling it brings the coin; nothing if
there is no quote or no raise that suffices. -/
def Pool.charge? (p : Pool) (coin : Coin) (denomIn : String) (attempts : Int) : Option Fixed := do
  let (source, target) ← (p.sides denomIn coin.denom).toOption
  let quoted ← (target.amountIn source coin.amount p.swapFee).toOption
  let found ← (converge (source.brings target p.swapFee) quoted coin.amount source.decimals attempts
    ()).1.toOption
  return (← found).1

/-! ## Quotes -/

namespace Pool

variable {p : Pool} {source target : Asset} {coin : Coin} {denomIn denomOut : String}
  {fee out quoted charged : Fixed} {attempts : Int}

/-- Between given sides a sale is quoted as the formula has it. -/
theorem quoteSale_eq_iff (hsides : p.sides coin.denom denomOut = .ok (source, target)) :
    p.quoteSale coin denomOut fee = .ok ⟨denomOut, out⟩ ↔
      source.amountOut target coin.amount fee = .ok out := by
  rw [quoteSale, hsides, ok_bind, bind_eq_ok]
  simp

/-- A quote of a sale comes from two sides of the pool. -/
theorem quoteSale_eq_ok (h : p.quoteSale coin denomOut fee = .ok ⟨denomOut, out⟩) :
    ∃ source target, p.sides coin.denom denomOut = .ok (source, target) ∧
      source.amountOut target coin.amount fee = .ok out := by
  obtain ⟨⟨source, target⟩, hsides, _⟩ := bind_eq_ok.mp h
  exact ⟨source, target, hsides, (quoteSale_eq_iff hsides).mp h⟩

theorem quotePurchase_eq_ok (h : p.quotePurchase coin denomIn fee = .ok ⟨denomIn, quoted⟩) :
    ∃ source target, p.sides denomIn coin.denom = .ok (source, target) ∧
      target.amountIn source coin.amount fee = .ok quoted := by
  obtain ⟨⟨source, target⟩, hsides, h⟩ := bind_eq_ok.mp h
  obtain ⟨paid, hpaid, h⟩ := bind_eq_ok.mp h
  rw [pure_eq_ok] at h
  cases h
  exact ⟨source, target, hsides, hpaid⟩

section

variable (hsides : p.sides denomIn coin.denom = .ok (source, target))
  (hquoted : target.amountIn source coin.amount p.swapFee = .ok quoted)

include hsides hquoted

/-- A purchase is charged at what the search converges to. -/
theorem charge?_eq_some : p.charge? coin denomIn attempts = some charged ↔
    ∃ out, converge (source.brings target p.swapFee) quoted coin.amount source.decimals attempts () =
      (.ok (some (charged, out)), ()) := by
  simp only [charge?, hsides, hquoted, Except.toOption, Option.bind_eq_bind, Option.bind_some]
  rcases converge (source.brings target p.swapFee) quoted coin.amount source.decimals attempts () with
    ⟨_ | _ | ⟨charged', out⟩, _⟩ <;> simp

/-- What is charged is at least the quote, and selling it brings the coin. -/
theorem le_charge? (h : p.charge? coin denomIn attempts = some charged) :
    quoted ≤ charged ∧ ∃ out, coin.amount ≤ out ∧ source.amountOut target charged p.swapFee = .ok out := by
  obtain ⟨out, hfound⟩ := (charge?_eq_some hsides hquoted).mp h
  obtain ⟨hle, -, henough, _, _, hsale⟩ := converge_eq_some hfound
  exact ⟨hle, out, henough, Asset.brings_eq_some.mp hsale⟩

/-- The quote itself is charged if selling it brings the coin. -/
theorem charge?_eq_quoted : p.charge? coin denomIn attempts = some quoted ↔
    ∃ out, coin.amount ≤ out ∧ source.amountOut target quoted p.swapFee = .ok out := by
  constructor
  · exact fun h => (le_charge? hsides hquoted h).2
  · rintro ⟨out, henough, hsale⟩
    have hbrings : source.brings target p.swapFee quoted () = (.ok (some out), ()) :=
      Asset.brings_eq_some.mpr hsale
    refine (charge?_eq_some hsides hquoted).mpr ⟨out, ?_⟩
    rw [converge, Action.bind_apply, hbrings]
    dsimp only
    rw [if_pos henough]
    rfl

/-- Only a part of a reserve is quoted to a buyer, and not nothing of it. -/
theorem part_of_amountIn (hp : p.Valid) : 0 < coin.amount.raw ∧ coin.amount < target.balance := by
  obtain ⟨_, hsource, htarget⟩ := sides_eq_ok hsides
  obtain ⟨power, hpurchase⟩ := Asset.amountIn_eq_ok hquoted
  have hnonneg {denom : String} {a : Asset} (h : p.asset denom = .ok a) : 0 ≤ a.balance.raw :=
    (hp.assets a (mem_of_asset h).1).balance_nonneg
  exact ⟨hpurchase.amount_pos (hnonneg hsource) (hnonneg htarget), hpurchase.available⟩

end

end Pool

/-- An account can send a coin, because it issues or holds it. -/
def Ledger.Affords (l : Ledger) (account : String) (coin : Coin) : Prop :=
  l.issues account coin.denom ∨ coin.amount.raw ≤ l.held account coin.denom

/-- What a sender affords is admitted. -/
theorem Ledger.Affords.admit? {l : Ledger} {sender recipient : String} {coin : Coin}
    (h : l.Affords sender coin) (hcoin : 0 ≤ coin.amount.raw) :
    l.admit? ⟨sender, recipient, coin⟩ = .ok () :=
  admit?_eq_ok.mpr ⟨hcoin, h⟩

namespace Market

variable {m : Market} {p : Pool} {source target : Asset} {coin : Coin} {denomIn : String}
  {quoted charged : Fixed}

theorem brings_simulateSale : Brings (source.brings target p.swapFee) (simulateSale p source target) := by
  intro amount out s s' t h
  rw [Asset.brings_eq_some] at h
  rw [simulateSale, h]
  exact ⟨t, rfl⟩

theorem simulateSale_brings : Brings (simulateSale p source target) (source.brings target p.swapFee) :=
  fun _ _ _ _ t h => ⟨t, Asset.brings_eq_some.mpr (simulateSale_eq_some h)⟩

section

variable (hsides : p.sides denomIn coin.denom = .ok (source, target))
  (hquoted : target.amountIn source coin.amount p.swapFee = .ok quoted)

include hsides hquoted

/-- What the market charges is what buying the coin comes to. -/
theorem charge?_of_convergedInput {s s' : Progress}
    (h : m.convergedInput p source target quoted coin s = (.ok charged, s')) :
    p.charge? coin denomIn m.settings.attempts = some charged := by
  obtain ⟨out, s₁, hfound⟩ := converge_of_convergedInput h
  obtain ⟨_, hfound⟩ := converge_brings simulateSale_brings () hfound
  exact (Pool.charge?_eq_some hsides hquoted).mpr ⟨out, hfound⟩

/-- What buying a coin comes to is charged, unless it has to be raised and has no text. -/
theorem convergedInput_of_charge? (hcharged : p.charge? coin denomIn m.settings.attempts = some charged)
    (hshort : charged ≠ quoted → charged.raw.natAbs < 10 ^ Fixed.maxDigits) (s : Progress) :
    ∃ s', m.convergedInput p source target quoted coin s = (.ok charged, s') := by
  obtain ⟨out, hfound⟩ := (Pool.charge?_eq_some hsides hquoted).mp hcharged
  have hpos := amountIn_pos hquoted
  have hle := Fixed.le_def.mp (Pool.le_charge? hsides hquoted hcharged).1
  have hnatAbs : quoted.raw.natAbs ≤ charged.raw.natAbs := by omega
  obtain ⟨s₁, hfound⟩ := converge_brings brings_simulateSale s hfound
  rw [convergedInput, Action.bind_apply, hfound]
  dsimp only
  by_cases hraised : charged = quoted
  · rw [if_neg (not_not.mpr hraised)]
    exact ⟨s₁, rfl⟩
  · -- the quote is below what is charged, so both have a text
    have hcharged := hshort hraised
    have hquoted := Nat.lt_of_le_of_lt hnatAbs hcharged
    have hwritten {a : Fixed} (h : a.raw.natAbs < 10 ^ Fixed.maxDigits) : a.written = .ok a.text :=
      Fixed.written_of_printable (Fixed.printable_of_lt (Nat.le_refl _) h)
    rw [if_pos hraised, hwritten hquoted, hwritten hcharged]
    exact ⟨_, rfl⟩

end

/-! ## What becomes of a request -/

/-- Both sides of a swap can pay, and the repository takes the pool that the swap stages. -/
structure CanSettle (m : Market) (p : Pool) (sender : String) (taken given : Coin) : Prop where
  sender : m.ledger.Affords sender taken
  pool : m.ledger.Affords p.address given
  stored : ∀ staged, p.trade taken given = .ok staged → (Repository.store staged m.repository).1 = .ok ()

/-- A request was committed as a swap of two coins, and answers an amount if the coins have a text. -/
structure Swapped (m : Market) (r : Request) (p : Pool) (taken given : Coin) (answer : Fixed) :
    Prop where
  repository : ∃ staged, p.trade taken given = .ok staged ∧
    (perform r m).2.repository = (Repository.store staged m.repository).2
  ledger : (perform r m).2.ledger =
    (m.ledger.moved ⟨r.sender, p.address, taken⟩).moved ⟨p.address, r.sender, given⟩
  answer : taken.amount.raw.natAbs < 10 ^ Fixed.maxDigits →
    given.amount.raw.natAbs < 10 ^ Fixed.maxDigits → (perform r m).1 = .ok (.amount answer)

/-- A request was refused, and nothing has moved. -/
structure Refused (m : Market) (r : Request) : Prop where
  answer : ∃ f, (perform r m).1 = .error f
  repository : (perform r m).2.repository = m.repository
  ledger : (perform r m).2.ledger = m.ledger

variable {r : Request}

/-- What cannot be planned is refused. -/
theorem refused_of_plan {f : Failure} (h : (m.plan r Progress.start).1 = .error f) : m.Refused r := by
  have hplan : m.plan r Progress.start = (.error f, (m.plan r Progress.start).2) := Prod.ext h rfl
  have hattempt : ∃ m', attempt r m = (.error f, m') ∧ m'.repository = m.repository ∧
      m'.ledger = m.ledger := by
    rw [attempt, hplan]
    exact ⟨_, rfl, rfl, rfl⟩
  obtain ⟨m', hattempt, hrepository, hledger⟩ := hattempt
  have hperform := perform_eq_of_attempt_error hattempt
  exact ⟨⟨f, by rw [hperform]⟩, by rw [hperform]; exact hrepository, by rw [hperform]; exact hledger⟩

/-- What is asked of a pool that cannot be named is refused. -/
theorem refused_of_not_isWritable {pool : Int} (hload : m.repository.load pool = .ok p)
    (hlong : ¬ Text.IsWritable p.id) (sender : String) (operation : Operation) :
    m.Refused ⟨sender, pool, operation⟩ := by
  rcases hplan : m.plan ⟨sender, pool, operation⟩ Progress.start with ⟨f | plan, progress⟩
  · exact refused_of_plan (congrArg Prod.fst hplan)
  · exact absurd ((planned_of_plan hplan).isWritable hload) hlong

/-- Both transfers of a swap that can be settled are admitted. -/
theorem CanSettle.admitAll? {sender : String} {taken given : Coin}
    (h : m.CanSettle p sender taken given) (hne : taken.denom ≠ given.denom)
    (htaken : 0 ≤ taken.amount.raw) (hgiven : 0 ≤ given.amount.raw) :
    m.ledger.admitAll? [⟨sender, p.address, taken⟩, ⟨p.address, sender, given⟩] = .ok () := by
  -- the coin that is paid in does not count for the one that is given
  have hpool : (m.ledger.moved ⟨sender, p.address, taken⟩).Affords p.address given := by
    rw [Ledger.Affords, Ledger.held_moved, if_neg (fun h => hne h.2), if_neg (fun h => hne h.2),
      Int.sub_zero, Int.add_zero]
    exact h.pool
  rw [Ledger.admitAll?, Ledger.admitAll?, h.sender.admit? htaken, hpool.admit? hgiven]
  rfl

/-- A swap that is planned and can be settled is committed. -/
theorem swapped_of_plan {taken given : Coin} {staged : Pool} {answer : Fixed}
    (hfaults : m.faults = .none) (hp : p.Valid) (hne : taken.denom ≠ given.denom)
    (htaken : 0 ≤ taken.amount.raw) (hgiven : 0 ≤ given.amount.raw)
    (hsettle : m.CanSettle p r.sender taken given) (htrade : p.trade taken given = .ok staged)
    (hplan : (m.plan r Progress.start).1 =
      .ok ⟨staged, ⟨.swap, r.pool, r.sender, [taken], [given]⟩, .amount answer⟩) :
    m.Swapped r p taken given answer := by
  have haddress : staged.address = p.address := by
    rw [(Pool.trade_eq_ok hp htrade).2, Pool.address_shifted]
  have htransfers : Plan.transfers ⟨staged, ⟨.swap, r.pool, r.sender, [taken], [given]⟩,
      .amount answer⟩ = [⟨r.sender, p.address, taken⟩, ⟨p.address, r.sender, given⟩] := by
    rw [Plan.transfers, haddress]
    rfl
  have hgranted : m.granted r =
      .ok ⟨staged, ⟨.swap, r.pool, r.sender, [taken], [given]⟩, .amount answer⟩ := by
    rw [granted, hplan, ok_bind, takes, htransfers, hsettle.admitAll? hne htaken hgiven, ok_bind,
      hsettle.stored staged htrade]
    rfl
  obtain ⟨hrepository, hledger⟩ := attempt_parts
    (Prod.ext ((attempt_answer hfaults r).trans hgranted) rfl : attempt r m = (_, (attempt r m).2))
  obtain ⟨hrepository', hledger'⟩ := perform_parts r m
  refine ⟨⟨staged, htrade, hrepository'.trans hrepository⟩, ?_, ?_⟩
  · rw [hledger', hledger, htransfers]
    rfl
  · intro hshort hshort'
    have hwritable : Event.writable ⟨.swap, r.pool, r.sender, [taken], [given]⟩ = .ok () := by
      apply Event.writable_of_lt
      intro c hc
      rcases List.mem_pair.mp hc with rfl | rfl
      · exact hshort
      · exact hshort'
    rw [perform_answer hfaults, hgranted, ok_bind, hwritable]
    rfl

/-! ## Sales at their quote -/

section

variable {sender : String} {pool : Int} {denomOut : String} {quote maximum : Fixed}

theorem swappable_of_sides {traded : Coin} (hload : m.repository.load pool = .ok p)
    (hactive : p.isActive m.clock = .ok true)
    (hsides : p.sides denomIn denomOut = .ok (source, target)) (hpos : 0 < traded.amount.raw) :
    m.Swappable pool traded denomIn denomOut p source target := by
  obtain ⟨hne, hsource, htarget⟩ := Pool.sides_eq_ok hsides
  exact ⟨hne, hpos, hload, hsource, htarget, hactive⟩

variable (hfaults : m.faults = .none) (hload : m.repository.load pool = .ok p) (hp : p.Valid)
  (hactive : p.isActive m.clock = .ok true)

include hload hp hactive

include hfaults in
/-- **A sale is executed at its quote.** -/
theorem swapped_of_quoteSale (hnamed : Text.IsWritable p.id)
    (hquote : p.quoteSale coin denomOut p.swapFee = .ok ⟨denomOut, quote⟩)
    (hsettle : m.CanSettle p sender coin ⟨denomOut, quote⟩) :
    m.Swapped ⟨sender, pool, .swapIn coin denomOut quote⟩ p coin ⟨denomOut, quote⟩ quote := by
  obtain ⟨source, target, hsides, hsale⟩ := Pool.quoteSale_eq_ok hquote
  obtain ⟨hne, hsource, htarget⟩ := Pool.sides_eq_ok hsides
  obtain ⟨power, hquoted⟩ := Asset.amountOut_eq_ok hsale
  have hbalance := (hp.assets _ (Pool.mem_of_asset htarget).1).balance_nonneg
  have hpos := hquoted.amount_pos hbalance
  have htrade := Pool.trade_eq_shifted coin ⟨denomOut, quote⟩ hp hne hsource htarget hpos.le
    (hquoted.le_balance hbalance).1
  obtain ⟨progress, hplan⟩ := planSwapIn_of_swappable sender coin hp hnamed
    (swappable_of_sides hload hactive hsides hpos) hpos hsale (Int.le_refl quote.raw)
  exact swapped_of_plan hfaults hp hne hpos.le hquoted.out_pos.le hsettle htrade
    (congrArg Prod.fst hplan)

/-! ## Purchases at what they come to -/

variable (hsides : p.sides denomIn coin.denom = .ok (source, target))
  (hquoted : target.amountIn source coin.amount p.swapFee = .ok quoted)

include hsides hquoted

/-- Planning a quoted purchase is left with what is charged for it. -/
theorem plan_purchase (sender : String) (maximum : Fixed) :
    ∃ s, (m.plan ⟨sender, pool, .swapOut denomIn maximum coin⟩ Progress.start).1 = do
      let charged ← (m.convergedInput p source target quoted coin s).1
      require (Decidable.decide (charged ≤ maximum)) (.aboveMaximum denomIn charged maximum)
      let staged ← p.trade ⟨denomIn, charged⟩ coin
      requireWritable p.id
      return ⟨staged, ⟨.swap, pool, sender, [⟨denomIn, charged⟩], [coin]⟩, .amount charged⟩ := by
  obtain ⟨hpos, havailable⟩ := Pool.part_of_amountIn hsides hquoted hp
  have hswappable := swappable_of_sides hload hactive hsides hpos
  have hwhole := require_eq_ok (f := .wholeReserve).mpr (decide_eq_true havailable)
  simp only [plan, planSwapOut, hswappable.swapSides_eq hpos, hwhole, hquoted, Progress.decide_ok]
  have hadvance (stage : Stage) (s : Progress) : (Progress.advance
      (Request.context ⟨sender, pool, .swapOut denomIn maximum coin⟩) stage s).1 = .ok () := rfl
  simp only [Action.fst_bind, hadvance, ok_bind, Progress.fst_decide]
  exact ⟨_, rfl⟩

/-- What is above the maximum, or cannot be found, is refused. -/
theorem refused_of_charge? (sender : String)
    (habove : ∀ charged, p.charge? coin denomIn m.settings.attempts = some charged → maximum < charged) :
    m.Refused ⟨sender, pool, .swapOut denomIn maximum coin⟩ := by
  obtain ⟨s, hplan⟩ := plan_purchase hload hp hactive hsides hquoted sender maximum
  rcases hconverged : m.convergedInput p source target quoted coin s with ⟨f | charged, s'⟩
  · rw [hconverged] at hplan
    exact refused_of_plan hplan
  · have hlt := Fixed.lt_def.mp (habove charged (charge?_of_convergedInput hsides hquoted hconverged))
    have hnot : ¬ charged ≤ maximum := Int.not_le.mpr hlt
    rw [hconverged, ok_bind, decide_eq_false hnot] at hplan
    exact refused_of_plan hplan

include hfaults in
/-- **A purchase is executed** at what it comes to, if that is within the maximum. -/
theorem swapped_of_charge? {sender : String} (hnamed : Text.IsWritable p.id)
    (hcharged : p.charge? coin denomIn m.settings.attempts = some charged) (hwithin : charged ≤ maximum)
    (hshort : charged ≠ quoted → charged.raw.natAbs < 10 ^ Fixed.maxDigits)
    (hsettle : m.CanSettle p sender ⟨denomIn, charged⟩ coin) :
    m.Swapped ⟨sender, pool, .swapOut denomIn maximum coin⟩ p ⟨denomIn, charged⟩ coin charged := by
  obtain ⟨hne, hsource, htarget⟩ := Pool.sides_eq_ok hsides
  obtain ⟨hpos, havailable⟩ := Pool.part_of_amountIn hsides hquoted hp
  have hchargedPos : 0 < charged.raw := Int.lt_of_lt_of_le (amountIn_pos hquoted)
    (Fixed.le_def.mp (Pool.le_charge? hsides hquoted hcharged).1)
  have htrade := Pool.trade_eq_shifted ⟨denomIn, charged⟩ coin hp hne hsource htarget hchargedPos.le
    (Fixed.lt_def.mp havailable).le
  obtain ⟨s, hplan⟩ := plan_purchase hload hp hactive hsides hquoted sender maximum
  obtain ⟨s', hconverged⟩ := convergedInput_of_charge? hsides hquoted hcharged hshort s
  rw [hconverged, ok_bind, decide_eq_true hwithin, htrade, requireWritable_eq_ok.mpr hnamed] at hplan
  exact swapped_of_plan hfaults hp hne hchargedPos.le hpos.le hsettle htrade hplan

end

/-! ## Quotes -/

/-- **Quotes are executed.**  On a valid pool that is open and that can be named, a sale that can be settled
is executed at its quote.  A quoted purchase comes to at least its quote, and to the quote itself exactly
if selling the quote brings the coin.  What it comes to brings the coin when it is sold; the purchase is
executed at that if it is within the maximum and can be settled.  It is refused for any smaller maximum,
and for every maximum if it comes to nothing.  Whatever is asked of a pool that cannot be named is
refused. -/
theorem quotes_execute {pool : Int} (hfaults : m.faults = .none) (hload : m.repository.load pool = .ok p)
    (hp : p.Valid) (hactive : p.isActive m.clock = .ok true) :
    (Text.IsWritable p.id → ∀ sender coin denomOut quote,
      p.quoteSale coin denomOut p.swapFee = .ok ⟨denomOut, quote⟩ →
      m.CanSettle p sender coin ⟨denomOut, quote⟩ →
        m.Swapped ⟨sender, pool, .swapIn coin denomOut quote⟩ p coin ⟨denomOut, quote⟩ quote) ∧
    (Text.IsWritable p.id → ∀ sender coin denomIn quote,
      p.quotePurchase coin denomIn p.swapFee = .ok ⟨denomIn, quote⟩ →
      (p.charge? coin denomIn m.settings.attempts = some quote ↔
        ∃ out, coin.amount ≤ out ∧
          p.quoteSale ⟨denomIn, quote⟩ coin.denom p.swapFee = .ok ⟨coin.denom, out⟩) ∧
      (∀ charged, p.charge? coin denomIn m.settings.attempts = some charged →
        quote ≤ charged ∧
        (∃ out, coin.amount ≤ out ∧
          p.quoteSale ⟨denomIn, charged⟩ coin.denom p.swapFee = .ok ⟨coin.denom, out⟩) ∧
        ∀ maximum,
          (charged ≤ maximum → (charged ≠ quote → charged.raw.natAbs < 10 ^ Fixed.maxDigits) →
            m.CanSettle p sender ⟨denomIn, charged⟩ coin →
              m.Swapped ⟨sender, pool, .swapOut denomIn maximum coin⟩ p ⟨denomIn, charged⟩ coin
                charged) ∧
          (maximum < charged → m.Refused ⟨sender, pool, .swapOut denomIn maximum coin⟩)) ∧
      (p.charge? coin denomIn m.settings.attempts = none →
        ∀ maximum, m.Refused ⟨sender, pool, .swapOut denomIn maximum coin⟩)) ∧
    (¬ Text.IsWritable p.id → ∀ sender operation, m.Refused ⟨sender, pool, operation⟩) := by
  refine ⟨fun hnamed => ?sales, fun hnamed => ?purchases, refused_of_not_isWritable hload⟩
  case sales =>
    intro sender coin denomOut quote hquote hsettle
    exact swapped_of_quoteSale hfaults hload hp hactive hnamed hquote hsettle
  intro sender coin denomIn quote hquote
  obtain ⟨source, target, hsides, hquoted⟩ := Pool.quotePurchase_eq_ok hquote
  have hback (amount out : Fixed) :
      p.quoteSale ⟨denomIn, amount⟩ coin.denom p.swapFee = .ok ⟨coin.denom, out⟩ ↔
        source.amountOut target amount p.swapFee = .ok out := Pool.quoteSale_eq_iff hsides
  simp only [hback]
  refine ⟨Pool.charge?_eq_quoted hsides hquoted, ?_, ?_⟩
  · intro charged hcharged
    obtain ⟨hle, hsale⟩ := Pool.le_charge? hsides hquoted hcharged
    refine ⟨hle, hsale, fun maximum => ⟨?_, ?_⟩⟩
    · intro hwithin hshort hsettle
      exact swapped_of_charge? hfaults hload hp hactive hsides hquoted hnamed hcharged hwithin hshort
        hsettle
    · intro hlt
      refine refused_of_charge? hload hp hactive hsides hquoted sender fun charged' hcharged' => ?_
      rwa [← Option.some.inj (hcharged.symm.trans hcharged')]
  · intro hnone maximum
    refine refused_of_charge? hload hp hactive hsides hquoted sender fun charged hcharged => ?_
    exact absurd (hnone.symm.trans hcharged) (by simp)

/-- Both sides can pay for small trades on `buyersMarket`. -/
theorem canSettle_buyersMarket {taken given : Coin}
    (htaken : taken.amount.raw ≤ buyersMarket.ledger.held "bob" taken.denom)
    (hgiven : given.amount.raw ≤ buyersMarket.ledger.held evenPool.address given.denom) :
    buyersMarket.CanSettle evenPool "bob" taken given :=
  ⟨.inr htaken, .inr hgiven, fun _ _ => rfl⟩

/-- Twelve coins are sold to `evenPool` at their quote.  Ten are bought for what they come to, two units
above their quote, but not for less. -/
theorem selling_and_buying_executed :
    buyersMarket.Swapped ⟨"bob", 1, .swapIn ⟨"a", .ofInt 12⟩ "b" ⟨10714285000000000000⟩⟩ evenPool
        ⟨"a", .ofInt 12⟩ ⟨"b", ⟨10714285000000000000⟩⟩ ⟨10714285000000000000⟩ ∧
      buyersMarket.Swapped ⟨"bob", 1, .swapOut "a" ⟨11111113000000000000⟩ ⟨"b", .ofInt 10⟩⟩ evenPool
        ⟨"a", ⟨11111113000000000000⟩⟩ ⟨"b", .ofInt 10⟩ ⟨11111113000000000000⟩ ∧
      buyersMarket.Refused ⟨"bob", 1, .swapOut "a" ⟨11111112000000000000⟩ ⟨"b", .ofInt 10⟩⟩ := by
  have hload : buyersMarket.repository.load 1 = .ok evenPool := rfl
  obtain ⟨hsales, hpurchases, -⟩ := quotes_execute rfl hload evenPool_valid rfl
  have hnamed : Text.IsWritable evenPool.id := by decide
  obtain ⟨_, hexecuted, _⟩ := hpurchases hnamed "bob" ⟨"b", .ofInt 10⟩ "a" ⟨11111111000000000000⟩
    (by decide +kernel)
  obtain ⟨_, _, hmaximum⟩ := hexecuted ⟨11111113000000000000⟩ (by decide +kernel)
  have hshort : (11111113000000000000 : Int).natAbs < 10 ^ Fixed.maxDigits :=
    Nat.lt_of_lt_of_le (by decide : _ < 10 ^ 20) (Nat.pow_le_pow_right (by decide) (by decide))
  refine ⟨?_, ?_, ?_⟩
  · exact hsales hnamed "bob" ⟨"a", .ofInt 12⟩ "b" _ (by decide +kernel)
      (canSettle_buyersMarket (by decide) (by decide))
  · exact (hmaximum _).1 (Int.le_refl _) (fun _ => hshort)
      (canSettle_buyersMarket (by decide) (by decide))
  · exact (hmaximum _).2 (by decide)

/-- A purchase that is quoted, that both sides could pay for at the quote, and that is refused at it. -/
theorem buying_at_quote_refused :
    evenPool.Valid ∧ buyersMarket.repository.load 1 = .ok evenPool ∧
      evenPool.isActive buyersMarket.clock = .ok true ∧
      evenPool.quotePurchase ⟨"b", .ofInt 10⟩ "a" evenPool.swapFee =
        .ok ⟨"a", ⟨11111111000000000000⟩⟩ ∧
      buyersMarket.CanSettle evenPool "bob" ⟨"a", ⟨11111111000000000000⟩⟩ ⟨"b", .ofInt 10⟩ ∧
      (perform ⟨"bob", 1, .swapOut "a" ⟨11111111000000000000⟩ ⟨"b", .ofInt 10⟩⟩ buyersMarket).1 =
        .error (.aboveMaximum "a" ⟨11111113000000000000⟩ ⟨11111111000000000000⟩) :=
  ⟨evenPool_valid, rfl, rfl, by decide +kernel, canSettle_buyersMarket (by decide) (by decide),
    by decide +kernel⟩

end Market

end WeightedMarket
