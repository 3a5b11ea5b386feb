/-
  Pools can pay.

  The pools and the ledger are kept by separate code: an operation stores a new pool and makes its
  transfers one by one.  `Solvent` says that they agree: the account of every pool holds each of its
  reserves and owes its own shares in circulation.  Every operation keeps that, granted or refused
  (`solvent_perform`), because the coins of a plan pay for its pool (`Planned.settles`) and because
  no two pools share an account (`Pool.id_eq_of_address_eq`).

  So no transfer out of a pool's account is ever refused for want of funds: even after the whole
  plan the account holds the staged reserves, which are not negative (`admits_of_covers`).
-/
import Std.Data.String.ToInt
import WeightedMarket.Proofs.Commit

namespace WeightedMarket

open Decision

/-! ## Accounts of pools -/

namespace Pool

/-- Pools of different numbers have different accounts. -/
theorem id_eq_of_address_eq {p q : Pool} (h : p.address = q.address) : p.id = q.id := by
  have hchars : p.id.repr.toList = q.id.repr.toList := by
    simpa [address, toString] using congrArg String.toList h
  exact Int.repr_inj.mp (String.toList_inj.mp hchars)

end Pool

/-- The account of a pool holds its reserves, and owes the shares that it has issued. -/
structure Ledger.Covers (l : Ledger) (p : Pool) : Prop where
  reserves : ∀ a ∈ p.assets, l.held p.address a.denom = a.balance.raw
  issuer : l.issues p.address p.shareDenom = true
  supply : l.held p.address p.shareDenom = -p.totalShares.raw

namespace Ledger.Covers

variable {l : Ledger} {p : Pool} {plan : Plan}

/-- A plan moves its pool and its pool's account together. -/
theorem settled (h : l.Covers p) (hsettles : plan.Settles p)
    (hsender : plan.event.sender ≠ p.address) :
    (plan.transfers.foldl Ledger.moved l).Covers plan.pool := by
  have hheld (denom : String) := plan.held_address (hsettles.address ▸ hsender) l denom
  rw [hsettles.address] at hheld
  refine ⟨?_, ?_, ?_⟩
  · intro b hb
    rw [hsettles.pool, Pool.mem_assets_shifted] at hb
    obtain ⟨a, ha, rfl⟩ := hb
    rw [hsettles.address, hheld, h.reserves a ha]
  · rw [hsettles.address, hsettles.shareDenom]
    simpa [Ledger.issues] using h.issuer
  · have hsupply : plan.pool.totalShares.raw = p.totalShares.raw + -plan.event.gain p.shareDenom := by
      rw [hsettles.pool, Pool.totalShares_shifted]
    rw [hsettles.address, hsettles.shareDenom, hheld, h.supply, hsupply]
    omega

/-- A plan leaves the accounts of other pools alone. -/
theorem unmoved (h : l.Covers p) (hsender : plan.event.sender ≠ p.address)
    (hpool : plan.pool.address ≠ p.address) : (plan.transfers.foldl Ledger.moved l).Covers p where
  reserves a ha := by rw [plan.held_other hsender hpool, h.reserves a ha]
  issuer := by simpa [Ledger.issues] using h.issuer
  supply := by rw [plan.held_other hsender hpool, h.supply]

end Ledger.Covers

/-! ## Transfers out of a pool's account -/

/-- What an account pays out comes last in a plan. -/
theorem Plan.transfers_split {plan : Plan} {made left : List Transfer} {t : Transfer}
    (hsender : plan.event.sender ≠ plan.pool.address) (h : plan.transfers = made ++ t :: left)
    (ht : t.sender = plan.pool.address) :
    ∃ before after : List Coin, plan.event.received = before ++ t.coin :: after ∧
      t = ⟨plan.pool.address, plan.event.sender, t.coin⟩ ∧
      left = after.map fun c => ⟨plan.pool.address, plan.event.sender, c⟩ := by
  rw [transfers] at h
  rcases List.append_eq_append_iff.mp h with ⟨ts, hmade, hreceived⟩ | ⟨ts, hpaid, hreceived⟩
  · obtain ⟨before, rest, hsplit, _, hrest⟩ := List.map_eq_append_iff.mp hreceived
    obtain ⟨c, after, rfl, rfl, rfl⟩ := List.map_eq_cons_iff.mp hrest
    exact ⟨before, after, hsplit, rfl, rfl⟩
  · cases ts with
    | nil =>
      obtain ⟨c, after, hsplit, rfl, rfl⟩ := List.map_eq_cons_iff.mp (by simpa using hreceived.symm)
      exact ⟨[], after, hsplit, rfl, rfl⟩
    | cons t' ts =>
      -- the coins that are paid in come from the sender
      obtain ⟨rfl, _⟩ := List.cons.inj hreceived
      obtain ⟨_, rest, _, _, hrest⟩ := List.map_eq_append_iff.mp hpaid
      obtain ⟨c, _, _, rfl, _⟩ := List.map_eq_cons_iff.mp hrest
      exact absurd ht hsender

/-- The account of a pool that is covered can make every transfer of a plan that is its own. -/
theorem admits_of_covers {l : Ledger} {p : Pool} {plan : Plan} (h : l.Covers p)
    (hsettles : plan.Settles p) (hsender : plan.event.sender ≠ p.address) {made left : List Transfer}
    {t : Transfer} (hsplit : plan.transfers = made ++ t :: left) (ht : t.sender = plan.pool.address) :
    (made.foldl Ledger.moved l).admit? t = .ok () := by
  have hsender' : plan.event.sender ≠ plan.pool.address := hsettles.address ▸ hsender
  obtain ⟨before, after, hreceived, hleg, rfl⟩ := Plan.transfers_split hsender' hsplit ht
  have hmem : t.coin ∈ plan.event.paid ++ plan.event.received := by
    rw [hreceived]
    simp
  have hpositive := hsettles.positive _ hmem
  rw [Ledger.admit?, check_seq_eq_ok, require_eq_ok, require_eq_ok, decide_eq_true_eq, Bool.or_eq_true,
    decide_eq_true_eq]
  refine ⟨Int.le_of_lt hpositive, ?_⟩
  rcases hsettles.denoms _ hmem with hasset | hshare
  · -- what the account holds in the end is the staged reserve, and the transfers left only lower it
    right
    obtain ⟨a, ha, hdenom⟩ := List.mem_map.mp hasset
    have hafter : 0 ≤ Coin.total after t.coin.denom := by
      apply Coin.total_nonneg
      intro c hc
      apply hsettles.positive
      rw [hreceived]
      simp [hc]
    have hfinal : (plan.transfers.foldl Ledger.moved l).held plan.pool.address t.coin.denom =
        (made.foldl Ledger.moved l).held plan.pool.address t.coin.denom - t.coin.amount.raw -
          Coin.total after t.coin.denom := by
      rw [hsplit, List.foldl_append, List.foldl_cons, Ledger.held_foldl_received hsender',
        Ledger.held_moved, hleg]
      simp [hsender']
    have hstaged : 0 ≤ (plan.transfers.foldl Ledger.moved l).held plan.pool.address t.coin.denom := by
      have hmem' : ({ a with balance := ⟨a.balance.raw + plan.event.gain a.denom⟩ } : Asset) ∈
          plan.pool.assets := by
        rw [hsettles.pool, Pool.mem_assets_shifted]
        exact ⟨a, ha, rfl⟩
      rw [← hdenom, (h.settled hsettles hsender).reserves _ hmem']
      exact (hsettles.valid.assets _ hmem').balance_nonneg
    rw [ht]
    omega
  · left
    rw [ht, hsettles.address, hshare]
    simpa [Ledger.issues] using h.issuer

/-! ## Markets -/

namespace Market

variable {m m' : Market}

/-- The pools on the shelf and the ledger agree, for every pool. -/
structure Solvent (m : Market) : Prop where
  shelved : ∃ pools, m.repository = .shelf pools
  keyed : ∀ id p, m.repository.load id = .ok p → p.id = id
  valid : ∀ id p, m.repository.load id = .ok p → p.Valid
  own : ∀ id p, m.repository.load id = .ok p → p.shareDenom ∉ p.denoms
  covers : ∀ id p, m.repository.load id = .ok p → m.ledger.Covers p

/-- The sender of a request is none of the pools' accounts. -/
def Outsider (m : Market) (r : Request) : Prop :=
  ∀ id p, m.repository.load id = .ok p → r.sender ≠ p.address

theorem load_shelf_put {pools : Table Int Pool} {q p : Pool} {key id : Int}
    (h : (Repository.shelf (pools.put key q)).load id = .ok p) :
    key = id ∧ p = q ∨ key ≠ id ∧ (Repository.shelf pools).load id = .ok p := by
  simp only [Repository.load, Table.get?_put] at h ⊢
  by_cases hkey : key = id
  · simp only [hkey, if_true] at h
    exact .inl ⟨hkey, (Except.ok.inj h).symm⟩
  · simp only [hkey, if_false] at h
    exact .inr ⟨hkey, h⟩

/-- A plan that is done keeps every pool covered, and every pool its account. -/
theorem solvent_done {pools : Table Int Pool} {r : Request} {plan : Plan} (h : m.Solvent)
    (hshelf : m.repository = .shelf pools) (hplan : m.Planned r plan) (hout : m.Outsider r)
    (hrepository : m'.repository = .shelf (pools.put plan.pool.id plan.pool))
    (hledger : m'.ledger = plan.transfers.foldl Ledger.moved m.ledger) :
    m'.Solvent ∧ ∀ id q, m'.repository.load id = .ok q →
      ∃ p, m.repository.load id = .ok p ∧ q.address = p.address := by
  obtain ⟨p, hload⟩ := hplan.exists_load
  have hsettles := hplan.settles hload (h.valid _ p hload) (h.own _ p hload)
  have hid : plan.pool.id = r.pool := hsettles.id.trans (h.keyed _ p hload)
  have hsender (id : Int) (q : Pool) (hq : m.repository.load id = .ok q) :
      plan.event.sender ≠ q.address := by
    rw [hplan.event_eq.2]
    exact hout id q hq
  -- a pool of the new shelf is the staged one, or another one as it was
  have hcases (id : Int) (q : Pool) (hq : m'.repository.load id = .ok q) :
      r.pool = id ∧ q = plan.pool ∨ r.pool ≠ id ∧ m.repository.load id = .ok q := by
    rw [hrepository, hid] at hq
    rw [hshelf]
    exact load_shelf_put hq
  refine ⟨⟨⟨_, hrepository⟩, ?_, ?_, ?_, ?_⟩, ?_⟩
  · intro id q hq
    rcases hcases id q hq with ⟨rfl, rfl⟩ | ⟨_, hold⟩
    · exact hid
    · exact h.keyed id q hold
  · intro id q hq
    rcases hcases id q hq with ⟨_, rfl⟩ | ⟨_, hold⟩
    · exact hsettles.valid
    · exact h.valid id q hold
  · intro id q hq
    rcases hcases id q hq with ⟨_, rfl⟩ | ⟨_, hold⟩
    · rw [hsettles.shareDenom, hsettles.pool, Pool.denoms_shifted]
      exact h.own _ p hload
    · exact h.own id q hold
  · intro id q hq
    rw [hledger]
    rcases hcases id q hq with ⟨_, rfl⟩ | ⟨hne, hold⟩
    · exact (h.covers _ p hload).settled hsettles (hsender _ p hload)
    · refine (h.covers id q hold).unmoved (hsender id q hold) ?_
      intro haddress
      have hsame := Pool.id_eq_of_address_eq haddress
      rw [hid, h.keyed id q hold] at hsame
      exact hne hsame
  · intro id q hq
    rcases hcases id q hq with ⟨rfl, rfl⟩ | ⟨_, hold⟩
    · exact ⟨p, hload, hsettles.address⟩
    · exact ⟨q, hold, rfl⟩

/-- One operation keeps a market solvent, whatever becomes of it. -/
theorem solvent_perform {r : Request} (h : m.Solvent) (hscope : m.scope = some [.repository, .ledger])
    (hout : m.Outsider r) :
    (perform r m).2.Solvent ∧ (perform r m).2.scope = some [.repository, .ledger] ∧
      ∀ id q, (perform r m).2.repository.load id = .ok q →
        ∃ p, m.repository.load id = .ok p ∧ q.address = p.address := by
  obtain ⟨pools, hshelf⟩ := h.shelved
  obtain ⟨hscope', ⟨hrepository, hledger⟩ | ⟨plan, progress, hplan, hrepository, hledger⟩⟩ :=
    perform_cases hshelf hscope r
  · -- refused, so both parts are as they were
    refine ⟨⟨⟨pools, hrepository.trans hshelf⟩, ?_, ?_, ?_, ?_⟩, hscope'.trans hscope, ?_⟩
    · rw [hrepository]; exact h.keyed
    · rw [hrepository]; exact h.valid
    · rw [hrepository]; exact h.own
    · rw [hrepository, hledger]; exact h.covers
    · rw [hrepository]
      intro id q hq
      exact ⟨q, hq, rfl⟩
  · -- granted, so its plan is done
    obtain ⟨hsolvent, hkept⟩ :=
      solvent_done h hshelf (planned_of_plan hplan) hout hrepository hledger
    exact ⟨hsolvent, hscope'.trans hscope, hkept⟩

/-! ## Runs -/

/-- The market as the next operation finds it, at some moment. -/
def asked (m : Market) (now : Moment) : Market := { m with clock := now }

/-- The market after some operations, each asked at its moment, whatever becomes of them. -/
def after (m : Market) : List (Moment × Request) → Market
  | [] => m
  | (now, r) :: rest => (perform r (m.asked now)).2.after rest

theorem Solvent.asked (h : m.Solvent) (now : Moment) : (m.asked now).Solvent :=
  ⟨h.shelved, h.keyed, h.valid, h.own, h.covers⟩

/-- The run lemma: solvency, the scope of commits and the accounts of pools are kept together. -/
theorem solvent_after (h : m.Solvent) (hscope : m.scope = some [.repository, .ledger])
    {ops : List (Moment × Request)} (hout : ∀ op ∈ ops, m.Outsider op.2) :
    (m.after ops).Solvent ∧ (m.after ops).scope = some [.repository, .ledger] ∧
      ∀ id q, (m.after ops).repository.load id = .ok q →
        ∃ p, m.repository.load id = .ok p ∧ q.address = p.address := by
  induction ops generalizing m with
  | nil => exact ⟨h, hscope, fun id q hq => ⟨q, hq, rfl⟩⟩
  | cons op ops ih =>
    obtain ⟨now, r⟩ := op
    rw [List.forall_mem_cons] at hout
    obtain ⟨hsolvent, hscope', hkept⟩ := solvent_perform (h.asked now) hscope hout.1
    -- no operation changes the account of a pool, so outsiders stay outsiders
    have hout' : ∀ op ∈ ops, (perform r (m.asked now)).2.Outsider op.2 := by
      intro op hop id q hq
      obtain ⟨p, hp, haddress⟩ := hkept id q hq
      rw [haddress]
      exact hout.2 op hop id p hp
    obtain ⟨hafter, hscope'', hkept'⟩ := ih hsolvent hscope' hout'
    refine ⟨hafter, hscope'', ?_⟩
    intro id q hq
    obtain ⟨p', hp', haddress'⟩ := hkept' id q hq
    obtain ⟨p, hp, haddress⟩ := hkept id p' hp'
    exact ⟨p, hp, haddress'.trans haddress⟩

/-- Whatever is planned for a request, when the transfers before one out of the pool's account have
been made, the ledger admits that one. -/
def PoolPays (m : Market) (r : Request) : Prop :=
  ∀ plan progress, m.plan r Progress.start = (.ok plan, progress) →
    ∀ made t left m₁, plan.transfers = made ++ t :: left → t.sender = plan.pool.address →
      made.forM transfer { m with journal := m.journal ++ progress.entries } = (.ok (), m₁) →
        m₁.ledger.admit? t = .ok ()

theorem poolPays_of_solvent {r : Request} (h : m.Solvent) (hout : m.Outsider r) : m.PoolPays r := by
  intro plan progress hplan made t left m₁ hsplit ht hmade
  have hplanned := planned_of_plan hplan
  obtain ⟨p, hload⟩ := hplanned.exists_load
  have hsettles := hplanned.settles hload (h.valid _ p hload) (h.own _ p hload)
  have hledger : m₁.ledger = made.foldl Ledger.moved m.ledger := (transfers_eq_ok hmade).ledger
  have hsender : plan.event.sender ≠ p.address := by
    rw [hplanned.event_eq.2]
    exact hout _ p hload
  rw [hledger]
  exact admits_of_covers (h.covers _ p hload) hsettles hsender hsplit ht

/-- **Pools stay solvent.**  After every run of operations, each granted or refused, the account of
every pool holds its reserves and owes its shares; and no operation of the run is refused because
the account of its pool cannot pay. -/
theorem solvent_run (h : m.Solvent) (hscope : m.scope = some [.repository, .ledger])
    (ops : List (Moment × Request)) (hout : ∀ op ∈ ops, m.Outsider op.2) :
    (m.after ops).Solvent ∧ ∀ before now r rest, ops = before ++ (now, r) :: rest →
      ((m.after before).asked now).PoolPays r := by
  refine ⟨(solvent_after h hscope hout).1, ?_⟩
  rintro before now r rest rfl
  have hbefore : ∀ op ∈ before, m.Outsider op.2 := fun op hop => hout op (by simp [hop])
  obtain ⟨hsolvent, _, hkept⟩ := solvent_after h hscope hbefore
  refine poolPays_of_solvent (hsolvent.asked now) ?_
  intro id q hq
  obtain ⟨p, hp, haddress⟩ := hkept id q hq
  rw [haddress]
  exact hout (now, r) (by simp) id p hp

/-- The market of `evenPool` is solvent, and stays so when a tenth of the shares is redeemed and when
somebody without funds asks to join. -/
theorem even_solvent_run : (keeping [evenPool] evenLedger none).Solvent ∧
    ((keeping [evenPool] evenLedger none).after
      [(default, leaving), (default, ⟨"bob", 1, .join [⟨"a", .ofInt 5⟩] none⟩)]).Solvent := by
  have hload : ∀ id p, (keeping [evenPool] evenLedger none).repository.load id = .ok p →
      id = 1 ∧ p = evenPool := by
    intro id p h
    have h : (Repository.shelf (Table.empty.put 1 evenPool)).load id = .ok p := h
    rcases load_shelf_put h with ⟨rfl, rfl⟩ | ⟨_, h⟩
    · exact ⟨rfl, rfl⟩
    · exact absurd h Decision.refuse_ne_ok
  have hsolvent : (keeping [evenPool] evenLedger none).Solvent := by
    refine ⟨⟨_, rfl⟩, ?_, ?_, ?_, ?_⟩ <;> intro id p h <;> obtain ⟨rfl, rfl⟩ := hload id p h
    · rfl
    · exact evenPool_valid
    · decide
    · exact ⟨by decide, by decide, by decide⟩
  refine ⟨hsolvent, (solvent_run hsolvent rfl _ ?_).1⟩
  intro op hop id p h
  obtain ⟨rfl, rfl⟩ := hload id p h
  rw [List.mem_pair] at hop
  rcases hop with rfl | rfl <;> decide

end Market

end WeightedMarket
