/-
  Requests on different pools commute.

  Whether a request is granted depends on the clock, the settings, its pool, and on the ledger through two
  accounts: its sender's and its pool's (`granted_congr`).  What it changes is its pool and those two
  accounts (`load_perform`, `held_perform`), and of a pool that is not there it changes nothing.  So two
  requests of different senders on different pools, none of them sent by a pool, do not see each other:
  both orders give the same answers and leave the same pools and balances (`perform_comm`).

  Nothing is asked of the pools' assets, which may be the shares of other pools: what counts is whose
  balance it is, not of what.
-/
import WeightedMarket.Proofs.Deals
import WeightedMarket.Proofs.Grant

namespace WeightedMarket

open Decision

/-! ## What the ledger is asked -/

namespace Ledger

/-- Two ledgers that agree on the balances of some accounts, and on who issues what. -/
structure AgreesOn (accounts : String → Prop) (l l' : Ledger) : Prop where
  held : ∀ account, accounts account → ∀ denom, l'.held account denom = l.held account denom
  issues : ∀ account denom, l'.issues account denom = l.issues account denom

namespace AgreesOn

variable {accounts : String → Prop} {l l' : Ledger}

theorem moved (h : AgreesOn accounts l l') (t : Transfer) :
    AgreesOn accounts (l.moved t) (l'.moved t) where
  held account haccount denom := by rw [held_moved, held_moved, h.held account haccount]
  issues := h.issues

theorem admit? (h : AgreesOn accounts l l') {t : Transfer} (ht : accounts t.sender) :
    l'.admit? t = l.admit? t := by
  rw [Ledger.admit?, Ledger.admit?, balance, balance, h.issues, h.held _ ht]

/-- Only the accounts that send are asked for their balances. -/
theorem admitAll? (h : AgreesOn accounts l l') {ts : List Transfer}
    (hts : ∀ t ∈ ts, accounts t.sender) : l'.admitAll? ts = l.admitAll? ts := by
  induction ts generalizing l l' with
  | nil => rfl
  | cons t ts ih =>
    rw [List.forall_mem_cons] at hts
    rw [Ledger.admitAll?, Ledger.admitAll?, h.admit? hts.1, ih (h.moved t) hts.2]

end AgreesOn

end Ledger

namespace Market

variable {m m' : Market} {r s : Request} {plan : Plan}

/-! ## What planning reads -/

/-- Planning reads the clock, the settings and one pool. -/
theorem plan_congr (hclock : m'.clock = m.clock) (hsettings : m'.settings = m.settings)
    (hload : m'.repository.load r.pool = m.repository.load r.pool) : m'.plan r = m.plan r := by
  cases hoperation : r.operation <;>
    simp only [plan, hoperation, planSwapIn, planSwapOut, planJoin, planExit, swapSides, poolToJoin,
      requireActive, convergedInput, hclock, hsettings, hload]

/-- What is staged is a valid pool under the number of the loaded one. -/
theorem Planned.staged {p : Pool} (h : m.Planned r plan) (hload : m.repository.load r.pool = .ok p)
    (hp : p.Valid) : plan.pool.Valid ∧ plan.pool.id = p.id := by
  cases h with
  | swapIn sides sale enough trade =>
    obtain rfl := Except.ok.inj (sides.load.symm.trans hload)
    obtain ⟨hvalid, hpool⟩ := Pool.trade_eq_ok hp trade
    exact ⟨hvalid, (congrArg Pool.id hpool).trans (Pool.id_shifted _ _)⟩
  | swapOut sides available charged_pos sale enough within trade =>
    obtain rfl := Except.ok.inj (sides.load.symm.trans hload)
    obtain ⟨hvalid, hpool⟩ := Pool.trade_eq_ok hp trade
    exact ⟨hvalid, (congrArg Pool.id hpool).trans (Pool.id_shifted _ _)⟩
  | join load active joins enough =>
    obtain rfl := Except.ok.inj (load.symm.trans hload)
    obtain ⟨a, issued, hdeposit⟩ := Pool.joinWith_eq_ok hp joins
    exact ⟨hdeposit.valid, (congrArg Pool.id hdeposit.pool).trans (Pool.id_shifted _ _)⟩
  | exit load exits =>
    obtain rfl := Except.ok.inj (load.symm.trans hload)
    obtain ⟨refund, ratio, hredeem⟩ := Pool.exit_eq_ok hp exits
    exact ⟨hredeem.valid, (congrArg Pool.id hredeem.pool).trans (Pool.id_shifted _ _)⟩

theorem planned_of_granted (h : m.granted r = .ok plan) : m.Planned r plan := by
  rw [granted, bind_eq_ok] at h
  obtain ⟨plan', hplan, h⟩ := h
  rw [bind_eq_ok] at h
  obtain ⟨_, _, h⟩ := h
  rw [pure_eq_ok] at h
  subst h
  exact planned_of_plan (Prod.ext hplan rfl)

/-! ## Markets in memory -/

/-- Valid pools on a shelf, each under its number, and commits that bring back both parts when they are
refused; nothing is made to fail. -/
structure InMemory (m : Market) : Prop where
  shelved : ∃ pools, m.repository = .shelf pools
  keyed : ∀ id p, m.repository.load id = .ok p → p.id = id
  valid : ∀ id p, m.repository.load id = .ok p → p.Valid
  scope : m.scope = some [.repository, .ledger]
  faults : m.faults = .none

/-- A plan that was carried out, seen from the pool it is about. -/
structure CarriedOut (m : Market) (r : Request) (plan : Plan) (p : Pool) (m' : Market) : Prop where
  granted : m.granted r = .ok plan
  load : m.repository.load r.pool = .ok p
  valid : plan.pool.Valid
  id_eq : plan.pool.id = r.pool
  sender_eq : plan.event.sender = r.sender
  address_eq : plan.pool.address = p.address
  shelved : ∃ pools, m'.repository = .shelf pools
  loads : ∀ id, m'.repository.load id = if r.pool = id then .ok plan.pool else m.repository.load id
  ledger : m'.ledger = plan.transfers.foldl Ledger.moved m.ledger

/-- Performing a request carries out the plan that it is granted with, or leaves both parts alone. -/
theorem InMemory.cases (h : m.InMemory) (r : Request) :
    (∃ plan p, CarriedOut m r plan p (perform r m).2) ∨
      (∃ f, m.granted r = .error f) ∧ (perform r m).2.repository = m.repository ∧
        (perform r m).2.ledger = m.ledger := by
  obtain ⟨pools, hshelf⟩ := h.shelved
  obtain ⟨hrepository, hledger⟩ := perform_parts r m
  have hanswer := attempt_answer h.faults r
  rcases hattempt : attempt r m with ⟨f | plan, m₁⟩ <;> rw [hattempt] at hanswer hrepository hledger
  · have hmade := attempt_eq_error hshelf h.scope hattempt
    exact .inr ⟨⟨f, hanswer.symm⟩, hrepository.trans hmade.repository, hledger.trans hmade.ledger⟩
  · obtain ⟨hstored, hmoved⟩ := attempt_parts hattempt
    have hplanned := planned_of_granted hanswer.symm
    obtain ⟨p, hload⟩ := hplanned.exists_load
    obtain ⟨hvalid, hid⟩ := hplanned.staged hload (h.valid _ p hload)
    have hkeyed : plan.pool.id = r.pool := hid.trans (h.keyed _ p hload)
    have hput : (Market.perform r m).2.repository = .shelf (pools.put r.pool plan.pool) := by
      rw [hrepository, hstored, hshelf, ← hkeyed]
      rfl
    exact .inl ⟨plan, p,
      { granted := hanswer.symm
        load := hload
        valid := hvalid
        id_eq := hkeyed
        sender_eq := hplanned.event_eq.2
        address_eq := by rw [Pool.address, Pool.address, hid]
        shelved := ⟨_, hput⟩
        loads := fun id => by rw [hput, load_shelf_put_eq, hshelf]
        ledger := hledger.trans hmoved }⟩

theorem perform_surroundings (r : Request) (m : Market) :
    (perform r m).2.clock = m.clock ∧ (perform r m).2.settings = m.settings ∧
      (perform r m).2.scope = m.scope ∧ (perform r m).2.faults = m.faults := by
  have hkept := keeps_perform r m
  simp only [surroundings, Prod.mk.injEq] at hkept
  exact hkept

/-- One request keeps a market in memory. -/
theorem InMemory.perform (h : m.InMemory) (r : Request) : (perform r m).2.InMemory := by
  obtain ⟨_, _, hscope, hfaults⟩ := perform_surroundings r m
  rcases h.cases r with ⟨plan, p, hdone⟩ | ⟨_, hrepository, _⟩
  · refine ⟨hdone.shelved, ?_, ?_, hscope.trans h.scope, hfaults.trans h.faults⟩ <;> intro id q hq <;>
      rw [hdone.loads] at hq <;> split at hq
    · next hid =>
      cases hq
      exact hdone.id_eq.trans hid
    · exact h.keyed id q hq
    · cases hq
      exact hdone.valid
    · exact h.valid id q hq
  · refine ⟨?_, ?_, ?_, hscope.trans h.scope, hfaults.trans h.faults⟩ <;> rw [hrepository]
    · exact h.shelved
    · exact h.keyed
    · exact h.valid

/-! ## What a request changes -/

/-- The pool that a request stores, if it is granted. -/
def stores? (m : Market) (r : Request) : Option Pool :=
  match m.granted r with
  | .ok plan => some plan.pool
  | .error _ => none

/-- What a request moves of a balance. -/
def moves (m : Market) (r : Request) (account denom : String) : Int :=
  match m.granted r with
  | .ok plan => Ledger.received plan.transfers account denom - Ledger.sent plan.transfers account denom
  | .error _ => 0

/-- **A request changes its pool** and no other. -/
theorem InMemory.load_perform (h : m.InMemory) (r : Request) (id : Int) :
    (Market.perform r m).2.repository.load id =
      match m.stores? r with
      | some p => if r.pool = id then .ok p else m.repository.load id
      | none => m.repository.load id := by
  rcases h.cases r with ⟨plan, p, hdone⟩ | ⟨⟨f, hrefused⟩, hrepository, _⟩
  · rw [hdone.loads, stores?, hdone.granted]
  · rw [hrepository, stores?, hrefused]

/-- A request moves balances by what it moves, wherever they stand. -/
theorem InMemory.held_perform (h : m.InMemory) (r : Request) (account denom : String) :
    (Market.perform r m).2.ledger.held account denom =
      m.ledger.held account denom + m.moves r account denom := by
  rcases h.cases r with ⟨plan, p, hdone⟩ | ⟨⟨f, hrefused⟩, _, hledger⟩
  · rw [hdone.ledger, Ledger.held_foldl_moved, moves, hdone.granted]
    dsimp only
    omega
  · rw [hledger, moves, hrefused]
    exact (Int.add_zero _).symm

theorem InMemory.issues_perform (h : m.InMemory) (r : Request) (account denom : String) :
    (Market.perform r m).2.ledger.issues account denom = m.ledger.issues account denom := by
  rcases h.cases r with ⟨plan, p, hdone⟩ | ⟨_, _, hledger⟩
  · rw [hdone.ledger, Ledger.issues, Ledger.issues, Ledger.issuers_foldl_moved]
  · rw [hledger]

/-- **A request changes two accounts** and no other: its sender's and its pool's. -/
theorem InMemory.held_perform_other (h : m.InMemory) {account : String} (hsender : r.sender ≠ account)
    (hpool : ∀ p, m.repository.load r.pool = .ok p → p.address ≠ account) (denom : String) :
    (Market.perform r m).2.ledger.held account denom = m.ledger.held account denom := by
  rcases h.cases r with ⟨plan, p, hdone⟩ | ⟨_, _, hledger⟩
  · rw [hdone.ledger]
    refine plan.held_other ?_ ?_ _ denom
    · rw [hdone.sender_eq]
      exact hsender
    · rw [hdone.address_eq]
      exact hpool p hdone.load
  · rw [hledger]

/-! ## What a request does not see -/

/-- The accounts that the transfers of a request are sent from. -/
def Asked (m : Market) (r : Request) (account : String) : Prop :=
  account = r.sender ∨ ∃ p, m.repository.load r.pool = .ok p ∧ account = p.address

theorem asked_of_mem_transfers (h : m.InMemory) (hplan : m.Planned r plan) {t : Transfer}
    (ht : t ∈ plan.transfers) : m.Asked r t.sender := by
  obtain ⟨p, hload⟩ := hplan.exists_load
  have hid := (hplan.staged hload (h.valid _ p hload)).2
  rcases List.mem_append.mp ht with ht | ht
  · obtain ⟨c, _, rfl⟩ := List.mem_map.mp ht
    exact .inl hplan.event_eq.2
  · obtain ⟨c, _, rfl⟩ := List.mem_map.mp ht
    exact .inr ⟨p, hload, by rw [Pool.address, Pool.address, hid]⟩

/-- **A request is granted by what it reads**: where the surroundings, its pool and the accounts it asks
are the same, it is granted with the same plan or refused with the same words. -/
theorem InMemory.granted_congr (h : m.InMemory) (h' : m'.InMemory) (hclock : m'.clock = m.clock)
    (hsettings : m'.settings = m.settings)
    (hload : m'.repository.load r.pool = m.repository.load r.pool)
    (hledger : Ledger.AgreesOn (m.Asked r) m.ledger m'.ledger) : m'.granted r = m.granted r := by
  obtain ⟨pools, hshelf⟩ := h.shelved
  obtain ⟨pools', hshelf'⟩ := h'.shelved
  rw [granted, granted, plan_congr hclock hsettings hload]
  rcases hplan : m.plan r Progress.start with ⟨_ | plan, progress⟩
  · rfl
  · have hadmit : m'.ledger.admitAll? plan.transfers = m.ledger.admitAll? plan.transfers :=
      hledger.admitAll? fun t ht => asked_of_mem_transfers h (planned_of_plan hplan) ht
    have htakes : m'.takes plan = m.takes plan := by
      rw [takes, takes, hadmit, hshelf, hshelf']
      rfl
    rw [ok_bind, ok_bind, htakes]

/-- A request sees nothing of another sender's request on another pool. -/
theorem InMemory.granted_perform (h : m.InMemory) (hpool : r.pool ≠ s.pool)
    (hsender : r.sender ≠ s.sender) (hr : m.Outsider r) (hs : m.Outsider s) :
    (Market.perform s m).2.granted r = m.granted r := by
  obtain ⟨hclock, hsettings, _, _⟩ := perform_surroundings s m
  refine h.granted_congr (h.perform s) hclock hsettings ?_ ⟨?_, h.issues_perform s⟩
  · rw [h.load_perform]
    cases m.stores? s with
    | none => rfl
    | some p => exact if_neg (Ne.symm hpool)
  · rintro account (rfl | ⟨p, hload, rfl⟩)
    · exact h.held_perform_other (Ne.symm hsender) fun q hq => Ne.symm (hr _ q hq)
    · refine h.held_perform_other (hs _ p hload) fun q hq => ?_
      -- accounts of pools differ because their numbers do
      intro haddress
      have hid := Pool.id_eq_of_address_eq haddress
      rw [h.keyed _ q hq, h.keyed _ p hload] at hid
      exact hpool hid.symm

theorem InMemory.answer_perform (h : m.InMemory) (hpool : r.pool ≠ s.pool)
    (hsender : r.sender ≠ s.sender) (hr : m.Outsider r) (hs : m.Outsider s) :
    (Market.perform r (Market.perform s m).2).1 = (Market.perform r m).1 := by
  rw [perform_answer h.faults, perform_answer (h.perform s).faults, h.granted_perform hpool hsender hr hs]

/-- **Requests on different pools commute.**  For two requests of different senders, none of them a pool,
on different pools of a market in memory: either order gives each of them the answer or refusal that it
has alone, and both orders leave the same pool under every number and the same balance in every account.
And a request changes no pool but its own, and no account but its sender's and its pool's. -/
theorem perform_comm (h : m.InMemory) (hpool : r.pool ≠ s.pool) (hsender : r.sender ≠ s.sender)
    (hr : m.Outsider r) (hs : m.Outsider s) :
    ((perform r (perform s m).2).1 = (perform r m).1 ∧ (perform s (perform r m).2).1 = (perform s m).1) ∧
    (∀ id, (perform s (perform r m).2).2.repository.load id =
      (perform r (perform s m).2).2.repository.load id) ∧
    (∀ account denom, (perform s (perform r m).2).2.ledger.held account denom =
      (perform r (perform s m).2).2.ledger.held account denom) ∧
    (∀ id, r.pool ≠ id → (perform r m).2.repository.load id = m.repository.load id) ∧
    ∀ account, r.sender ≠ account →
      (∀ p, m.repository.load r.pool = .ok p → p.address ≠ account) →
        ∀ denom, (perform r m).2.ledger.held account denom = m.ledger.held account denom := by
  have hgrantedr := h.granted_perform hpool hsender hr hs
  have hgranteds := h.granted_perform (Ne.symm hpool) (Ne.symm hsender) hs hr
  refine ⟨⟨h.answer_perform hpool hsender hr hs,
    h.answer_perform (Ne.symm hpool) (Ne.symm hsender) hs hr⟩, ?_, ?_, ?_, ?_⟩
  · intro id
    have hstoresr : (perform s m).2.stores? r = m.stores? r := by rw [stores?, stores?, hgrantedr]
    have hstoress : (perform r m).2.stores? s = m.stores? s := by rw [stores?, stores?, hgranteds]
    rw [(h.perform r).load_perform, (h.perform s).load_perform, hstoresr, hstoress, h.load_perform r,
      h.load_perform s]
    -- each number is that of one request's pool, of the other's, or of none
    cases m.stores? r <;> cases m.stores? s <;> dsimp only
    split <;> split <;> first | rfl | exact absurd (by omega) hpool
  · intro account denom
    have hmovesr : (perform s m).2.moves r account denom = m.moves r account denom := by
      rw [moves, moves, hgrantedr]
    have hmovess : (perform r m).2.moves s account denom = m.moves s account denom := by
      rw [moves, moves, hgranteds]
    rw [(h.perform r).held_perform, (h.perform s).held_perform, hmovesr, hmovess, h.held_perform r,
      h.held_perform s]
    omega
  · intro id hid
    rw [h.load_perform]
    cases m.stores? r with
    | none => rfl
    | some p => exact if_neg hid
  · exact fun account haccount hother denom => h.held_perform_other haccount hother denom

/-- A pool that holds half of the shares of `evenPool`. -/
def sharesPool : Pool :=
  { evenPool with
    id := 2
    assets := [⟨evenPool.shareDenom, .ofInt 50, .one, 18⟩, ⟨"b", .ofInt 100, .one, 6⟩] }

theorem sharesPool_valid : sharesPool.Valid := by decide

/-- The markets of `evenPool` and `sharesPool`, and somebody who holds ten coins. -/
def sharesMarket : Market :=
  keeping [evenPool, sharesPool]
    (((evenLedger.moved ⟨"alice", sharesPool.address, ⟨evenPool.shareDenom, .ofInt 50⟩⟩).mint
      sharesPool.address ⟨"b", .ofInt 100⟩).mint "bob" ⟨"b", .ofInt 10⟩) none

/-- Coins are sold for shares of `evenPool`. -/
def buyingShares : Request := ⟨"bob", 2, .swapIn ⟨"b", .ofInt 10⟩ evenPool.shareDenom .zero⟩

/-- Shares of `evenPool` are redeemed and others are bought, in either order. -/
theorem leaving_comm :
    (perform leaving (perform buyingShares sharesMarket).2).1 = .ok leavingPlan.receipt ∧
    (perform buyingShares (perform leaving sharesMarket).2).1 =
      .ok (.amount ⟨4545454545454545500⟩) ∧
    ∀ account denom,
      (perform buyingShares (perform leaving sharesMarket).2).2.ledger.held account denom =
        (perform leaving (perform buyingShares sharesMarket).2).2.ledger.held account denom := by
  have hload : ∀ id p, sharesMarket.repository.load id = .ok p →
      id = 1 ∧ p = evenPool ∨ id = 2 ∧ p = sharesPool := by
    intro id p h
    have h : (Repository.shelf ((Table.empty.put 1 evenPool).put 2 sharesPool)).load id = .ok p := h
    rcases load_shelf_put h with ⟨rfl, rfl⟩ | ⟨_, h⟩
    · exact .inr ⟨rfl, rfl⟩
    rcases load_shelf_put h with ⟨rfl, rfl⟩ | ⟨_, h⟩
    · exact .inl ⟨rfl, rfl⟩
    · exact absurd h Decision.refuse_ne_ok
  have hmemory : sharesMarket.InMemory := by
    refine ⟨⟨_, rfl⟩, ?_, ?_, rfl, rfl⟩ <;> intro id p h <;>
      rcases hload id p h with ⟨rfl, rfl⟩ | ⟨rfl, rfl⟩
    · rfl
    · rfl
    · exact evenPool_valid
    · exact sharesPool_valid
  have hleaving : sharesMarket.Outsider leaving := by
    intro id p h
    rcases hload id p h with ⟨rfl, rfl⟩ | ⟨rfl, rfl⟩ <;> decide
  have hbuying : sharesMarket.Outsider buyingShares := by
    intro id p h
    rcases hload id p h with ⟨rfl, rfl⟩ | ⟨rfl, rfl⟩ <;> decide
  obtain ⟨⟨hleft, hbought⟩, _, hheld, _⟩ :=
    perform_comm hmemory (r := leaving) (s := buyingShares) (by decide) (by decide) hleaving hbuying
  refine ⟨hleft.trans ?_, hbought.trans ?_, hheld⟩ <;> decide +kernel

end Market

end WeightedMarket
