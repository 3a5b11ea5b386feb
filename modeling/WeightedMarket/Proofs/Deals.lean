/-
  What a committed operation shows.

  The answer to a trader, the event for the observer, the transfers and the staged pool are made by
  separate code, in four operations with different shapes.  `Deal` says that they show the same coins:
  the request and its answer describe the event (`Request.event?`), the transfers are those of the event
  (`Event.transfers`), and the stored pool is the loaded one moved by the event's gains.

  Every request that is granted is a deal, and one that is refused leaves no trace in any of the views
  (`perform_dealt`).  So the deals of a run can be read off the observer's events, one for each, in their
  order, and the same list gives the transfers of the run (`exists_trail`).
-/
import WeightedMarket.Proofs.Atomicity
import WeightedMarket.Proofs.Solvency

namespace WeightedMarket

open Decision

/-! ## Requests and their answers -/

/-- The event that a request on a pool and its answer describe; nothing if the answer is not one to
such a request. -/
def Request.event? (r : Request) (p : Pool) (answer : Receipt) : Option Event :=
  match r.operation, answer with
  | .swapIn coin denomOut _, .amount out =>
    some ⟨.swap, r.pool, r.sender, [coin], [⟨denomOut, out⟩]⟩
  | .swapOut denomIn _ coin, .amount charged =>
    some ⟨.swap, r.pool, r.sender, [⟨denomIn, charged⟩], [coin]⟩
  | .join coins _, .amount shares =>
    some ⟨.join, r.pool, r.sender, coins, [⟨p.shareDenom, shares⟩]⟩
  | .exit shares, .coins cs =>
    some ⟨.exit, r.pool, r.sender, [⟨p.shareDenom, shares⟩], cs⟩
  | _, _ => none

namespace Operation

/-- An answer keeps the bound that the trader has set. -/
def Within : Operation → Receipt → Prop
  | .swapIn _ _ minimum, .amount out => minimum ≤ out
  | .swapOut _ maximum _, .amount charged => charged ≤ maximum
  | .join _ minimum, .amount shares => ∀ least ∈ minimum, least ≤ shares
  | .exit _, .coins _ => True
  | _, _ => False

/-- Whether the pool must be open: shares can be redeemed at any time. -/
def needsOpen : Operation → Bool
  | .exit _ => false
  | _ => true

end Operation

namespace Event

/-- The account of the event's pool. -/
def account (e : Event) : String := s!"pool/{e.pool}"

/-- The transfers that an event tells of: first everything paid to the pool, then everything it gave. -/
def transfers (e : Event) : List Transfer :=
  e.paid.map (fun c => ⟨e.sender, e.account, c⟩) ++ e.received.map fun c => ⟨e.account, e.sender, c⟩

end Event

namespace Market

variable {m m' m₁ : Market} {r : Request} {plan : Plan}

namespace Planned

variable {p : Pool}

/-- The event of a plan is the one that its request and its answer call for. -/
theorem event?_eq (h : m.Planned r plan) (hload : m.repository.load r.pool = .ok p) :
    r.event? p plan.receipt = some plan.event := by
  cases h with
  | swapIn => rfl
  | swapOut => rfl
  | join load =>
    obtain rfl := Except.ok.inj (load.symm.trans hload)
    rfl
  | exit load =>
    obtain rfl := Except.ok.inj (load.symm.trans hload)
    rfl

/-- The answer of a plan is within the bounds of its request. -/
theorem within (h : m.Planned r plan) : r.operation.Within plan.receipt := by
  cases h with
  | swapIn sides sale enough trade => exact enough
  | swapOut sides available charged_pos sale enough within trade => exact within
  | join load active joins enough => exact enough
  | exit => trivial

/-- A plan that needs an open pool was made for one. -/
theorem active (h : m.Planned r plan) (hload : m.repository.load r.pool = .ok p)
    (hopen : r.operation.needsOpen) : p.isActive m.clock = .ok true := by
  cases h with
  | swapIn sides =>
    obtain rfl := Except.ok.inj (sides.load.symm.trans hload)
    exact sides.active
  | swapOut sides =>
    obtain rfl := Except.ok.inj (sides.load.symm.trans hload)
    exact sides.active
  | join load active =>
    obtain rfl := Except.ok.inj (load.symm.trans hload)
    exact active
  | exit => cases hopen

end Planned

/-! ## Deals -/

/-- A request that was granted on a pool, with its answer and the one event that tells of it. -/
structure Deal (m : Market) (r : Request) (p : Pool) (receipt : Receipt) (e : Event) (m' : Market) :
    Prop where
  load : m.repository.load r.pool = .ok p
  active : r.operation.needsOpen → p.isActive m.clock = .ok true
  within : r.operation.Within receipt
  describes : r.event? p receipt = some e
  events : m'.events = m.events ++ [e]
  transfers : m'.ledger.transfers = m.ledger.transfers ++ e.transfers
  ledger : m'.ledger = e.transfers.foldl Ledger.moved m.ledger
  stored : m'.repository.load r.pool = .ok (p.shifted e.gain (-e.gain p.shareDenom))
  others : ∀ id, id ≠ r.pool → m'.repository.load id = m.repository.load id

/-- A request that was refused: none of the views has changed. -/
structure Traceless (m m' : Market) : Prop where
  repository : m'.repository = m.repository
  ledger : m'.ledger = m.ledger
  events : m'.events = m.events

/-- The pools are in memory, each under its number, and none of them holds its own shares. -/
structure Stocked (m : Market) : Prop where
  shelved : ∃ pools, m.repository = .shelf pools
  keyed : ∀ id p, m.repository.load id = .ok p → p.id = id
  valid : ∀ id p, m.repository.load id = .ok p → p.Valid
  own : ∀ id p, m.repository.load id = .ok p → p.shareDenom ∉ p.denoms

/-- Commits bring both parts back when they are refused, and somebody is told of the others. -/
structure Watched (m : Market) : Prop where
  scope : m.scope = some [.repository, .ledger]
  observer : ∃ observer, m.observer = some observer

/-- From a shelf a pool is loaded that was put there last under its number. -/
theorem load_shelf_put_eq (pools : Table Int Pool) (key id : Int) (q : Pool) :
    (Repository.shelf (pools.put key q)).load id =
      if key = id then .ok q else (Repository.shelf pools).load id := by
  by_cases hkey : key = id
  · simp [Repository.load, Table.get?_put, hkey]
  · simp [Repository.load, Table.get?_put, hkey]

/-- The staged pool takes the place of the loaded one, and the market stays stocked. -/
theorem Stocked.put {p : Pool} {pools : Table Int Pool} (h : m.Stocked)
    (hshelf : m.repository = .shelf pools) (hload : m.repository.load r.pool = .ok p)
    (hsettles : plan.Settles p)
    (hrepository : m'.repository = .shelf (pools.put plan.pool.id plan.pool)) : m'.Stocked := by
  have hid : plan.pool.id = r.pool := hsettles.id.trans (h.keyed _ p hload)
  have hcases (id : Int) (q : Pool) (hq : m'.repository.load id = .ok q) :
      r.pool = id ∧ q = plan.pool ∨ r.pool ≠ id ∧ m.repository.load id = .ok q := by
    rw [hrepository, hid] at hq
    rw [hshelf]
    exact load_shelf_put hq
  refine ⟨⟨_, hrepository⟩, ?_, ?_, ?_⟩ <;> intro id q hq <;>
    rcases hcases id q hq with ⟨rfl, rfl⟩ | ⟨_, hold⟩
  · exact hid
  · exact h.keyed id q hold
  · exact hsettles.valid
  · exact h.valid id q hold
  · rw [hsettles.shareDenom, hsettles.pool, Pool.denoms_shifted]
    exact h.own _ p hload
  · exact h.own id q hold

theorem notify_observer (event : Event) (m : Market) : (notify event m).2.observer = m.observer := by
  simp only [notify, Action.bind_apply, Action.decide, note, Action.change, Action.look, noted]
  cases (event.paid ++ event.received).forM fun c => discard c.written with
  | error f => rfl
  | ok _ =>
    dsimp only
    cases m.observer with
    | none => rfl
    | some observer => cases observer <;> rfl

/-- A plan that was done, and of which the observer was told, is a deal. -/
theorem Done.deal {p : Pool} {pools : Table Int Pool} {observer : Observer} {m₂ : Market}
    (hdone : Done m pools plan m₁) (hshelf : m.repository = .shelf pools) (hplan : m.Planned r plan)
    (hload : m.repository.load r.pool = .ok p) (hkeyed : p.id = r.pool) (hsettles : plan.Settles p)
    (hobserver : m.observer = some observer) (hrepository : m₂.repository = m₁.repository)
    (hledger : m₂.ledger = m₁.ledger) (hevents : m₂.events = m₁.told plan.event) :
    Deal m r p plan.receipt plan.event m₂ := by
  have hid : plan.pool.id = r.pool := hsettles.id.trans hkeyed
  have htransfers : plan.transfers = plan.event.transfers := by
    rw [Plan.transfers, Event.transfers, Event.account, Pool.address, hid, hplan.event_eq.1]
  have hmoved : m₂.ledger = plan.event.transfers.foldl Ledger.moved m.ledger := by
    rw [hledger, hdone.ledger, htransfers]
  have hload' (id : Int) : m₂.repository.load id =
      if r.pool = id then .ok plan.pool else m.repository.load id := by
    rw [hrepository, hdone.repository, hid, load_shelf_put_eq, hshelf]
  exact
    { load := hload
      active := hplan.active hload
      within := hplan.within
      describes := hplan.event?_eq hload
      events := by rw [hevents, told, hdone.agrees.observer, hobserver, hdone.agrees.events]
      transfers := by rw [hmoved, Ledger.transfers_foldl_moved]
      ledger := hmoved
      stored := by rw [hload', if_pos rfl, hsettles.pool]
      others := fun id hne => by rw [hload', if_neg (Ne.symm hne)] }

/-- **Every request is a deal or leaves no trace.** -/
theorem perform_dealt (hstocked : m.Stocked) (hwatched : m.Watched) (hprints : m.Prints r) :
    (perform r m).2.Stocked ∧ (perform r m).2.Watched ∧
      ((∃ receipt p e, (perform r m).1 = .ok receipt ∧ Deal m r p receipt e (perform r m).2) ∨
        (∃ f, (perform r m).1 = .error f) ∧ Traceless m (perform r m).2) := by
  obtain ⟨pools, hshelf⟩ := hstocked.shelved
  obtain ⟨observer, hobserver⟩ := hwatched.observer
  rcases hattempt : attempt r m with ⟨f | plan, m₁⟩
  · -- refused before the commit was over
    have hmade := attempt_eq_error hshelf hwatched.scope hattempt
    rw [perform_eq_of_attempt_error hattempt]
    refine ⟨⟨?_, ?_, ?_, ?_⟩, ⟨hmade.agrees.scope.trans hwatched.scope, observer,
      hmade.agrees.observer.trans hobserver⟩, .inr ⟨⟨f, rfl⟩, hmade.repository, hmade.ledger,
        hmade.agrees.events⟩⟩
    · exact ⟨pools, hmade.repository.trans hshelf⟩
    · rw [hmade.repository]; exact hstocked.keyed
    · rw [hmade.repository]; exact hstocked.valid
    · rw [hmade.repository]; exact hstocked.own
  · -- committed, and the observer told
    obtain ⟨⟨progress, hplan⟩, hdone⟩ := attempt_eq_ok hshelf hwatched.scope hattempt
    have hplanned := planned_of_plan hplan
    obtain ⟨p, hload⟩ := hplanned.exists_load
    have hsettles := hplanned.settles hload (hstocked.valid _ p hload) (hstocked.own _ p hload)
    obtain ⟨m₂, hnotify, hrepository, hledger, hevents⟩ :=
      notify_eq_ok (m := m₁) (hprints plan progress hplan)
    have hscope := (notify_keeps plan.event m₁).2.2
    have hobserver' := notify_observer plan.event m₁
    rw [hnotify] at hscope hobserver'
    rw [perform_eq_of_attempt_ok hattempt hnotify]
    refine ⟨?_, ⟨?_, observer, ?_⟩, .inl ⟨plan.receipt, p, plan.event, rfl, ?_⟩⟩
    · exact hstocked.put hshelf hload hsettles (hrepository.trans hdone.repository)
    · exact hscope.trans (hdone.agrees.scope.trans hwatched.scope)
    · exact hobserver'.trans (hdone.agrees.observer.trans hobserver)
    · exact hdone.deal hshelf hplanned hload (hstocked.keyed _ p hload) hsettles hobserver hrepository
        hledger hevents

/-! ## Runs -/

/-- A run of requests and the events of those that were granted, in their order: every granted request
is a deal of its own event, and a refused one has no event and leaves no trace. -/
inductive Trail : Market → List (Moment × Request) → List Event → Market → Prop
  | nil (m : Market) : Trail m [] [] m
  | granted {m m₁ m' : Market} {now : Moment} {r : Request} {p : Pool} {receipt : Receipt} {e : Event}
      {ops : List (Moment × Request)} {events : List Event}
      (answer : perform r (m.asked now) = (.ok receipt, m₁))
      (deal : Deal (m.asked now) r p receipt e m₁) (rest : Trail m₁ ops events m') :
      Trail m ((now, r) :: ops) (e :: events) m'
  | refused {m m₁ m' : Market} {now : Moment} {r : Request} {f : Failure}
      {ops : List (Moment × Request)} {events : List Event}
      (answer : perform r (m.asked now) = (.error f, m₁))
      (traceless : Traceless (m.asked now) m₁) (rest : Trail m₁ ops events m') :
      Trail m ((now, r) :: ops) events m'

namespace Trail

variable {ops : List (Moment × Request)} {events : List Event}

/-- The observer has been told of the run's events, and the ledger has made their transfers. -/
theorem recorded (h : Trail m ops events m') :
    m'.events = m.events ++ events ∧
      m'.ledger.transfers = m.ledger.transfers ++ events.flatMap Event.transfers := by
  induction h with
  | nil => simp
  | granted answer deal rest ih =>
    obtain ⟨hevents, htransfers⟩ := ih
    rw [hevents, htransfers, deal.events, deal.transfers, List.flatMap_cons]
    simp [asked]
  | refused answer traceless rest ih =>
    obtain ⟨hevents, htransfers⟩ := ih
    rw [hevents, htransfers, traceless.events, traceless.ledger]
    exact ⟨rfl, rfl⟩

end Trail

/-- Every coin of a run can be written down. -/
def PrintsAll (m : Market) (ops : List (Moment × Request)) : Prop :=
  ∀ before now r rest, ops = before ++ (now, r) :: rest → ((m.after before).asked now).Prints r

theorem PrintsAll.cons {now : Moment} {ops : List (Moment × Request)}
    (h : m.PrintsAll ((now, r) :: ops)) :
    (m.asked now).Prints r ∧ (perform r (m.asked now)).2.PrintsAll ops := by
  refine ⟨h [] now r ops rfl, ?_⟩
  rintro before now' r' rest rfl
  exact h ((now, r) :: before) now' r' rest rfl

/-- **All views of a run agree.**  Whatever is asked of a market whose pools do not hold their own
shares, and whoever observes it, the run has a trail: one event for every granted request, which its
answer, its transfers and its stored pool agree with, and nothing for a refused one.  What the observer
has been told is the trail's events, and what the ledger has moved is their transfers. -/
theorem exists_trail (hstocked : m.Stocked) (hwatched : m.Watched) {ops : List (Moment × Request)}
    (hprints : m.PrintsAll ops) :
    ∃ events, Trail m ops events (m.after ops) ∧ (m.after ops).events = m.events ++ events ∧
      (m.after ops).ledger.transfers = m.ledger.transfers ++ events.flatMap Event.transfers := by
  have htrail : ∃ events, Trail m ops events (m.after ops) := by
    induction ops generalizing m with
    | nil => exact ⟨[], .nil m⟩
    | cons op ops ih =>
      obtain ⟨now, r⟩ := op
      obtain ⟨hhead, htail⟩ := hprints.cons
      have hasked : (m.asked now).Stocked :=
        ⟨hstocked.shelved, hstocked.keyed, hstocked.valid, hstocked.own⟩
      obtain ⟨hstocked', hwatched', hcases⟩ :=
        perform_dealt hasked ⟨hwatched.scope, hwatched.observer⟩ hhead
      obtain ⟨events, hrest⟩ := ih hstocked' hwatched' htail
      rcases hcases with ⟨receipt, p, e, hanswer, hdeal⟩ | ⟨⟨f, hanswer⟩, htraceless⟩
      · exact ⟨e :: events, .granted (Prod.ext hanswer rfl) hdeal hrest⟩
      · exact ⟨events, .refused (Prod.ext hanswer rfl) htraceless hrest⟩
  obtain ⟨events, htrail⟩ := htrail
  exact ⟨events, htrail, htrail.recorded⟩

/-- The only pool of `evenPool`'s market. -/
theorem load_even {observer : Option Observer} {id : Int} {p : Pool}
    (h : (keeping [evenPool] evenLedger observer).repository.load id = .ok p) :
    id = 1 ∧ p = evenPool := by
  have h : (Repository.shelf (Table.empty.put 1 evenPool)).load id = .ok p := h
  rcases load_shelf_put h with ⟨rfl, rfl⟩ | ⟨_, h⟩
  · exact ⟨rfl, rfl⟩
  · exact absurd h Decision.refuse_ne_ok

/-- Shares of a pool that does not exist are redeemed. -/
def lost : Request := ⟨"alice", 2, .exit (.ofInt 10)⟩

/-- Of a redemption that is granted and one that is refused, the trail has the first one's event. -/
theorem leaving_trail : ∃ m', Trail (keeping [evenPool] evenLedger (some .fails))
    [(default, leaving), (default, lost)] [leavingPlan.event] m' := by
  have hstocked : (keeping [evenPool] evenLedger (some .fails)).Stocked := by
    refine ⟨⟨_, rfl⟩, ?_, ?_, ?_⟩ <;> intro id p h <;> obtain ⟨rfl, rfl⟩ := load_even h
    · rfl
    · exact evenPool_valid
    · decide
  have hleaving : ((keeping [evenPool] evenLedger (some .fails)).plan leaving Progress.start).1 =
      .ok leavingPlan := by decide +kernel
  have hlost : ((((keeping [evenPool] evenLedger (some .fails)).after [(default, leaving)]).asked
      default).plan lost Progress.start).1 = .error (.noPool 2) := by decide +kernel
  have hprints : (keeping [evenPool] evenLedger (some .fails)).PrintsAll
      [(default, leaving), (default, lost)] := by
    intro before now r rest hops
    rcases before with _ | ⟨_, _ | ⟨_, _⟩⟩
    · cases hops
      intro plan progress h c hc
      have h : (keeping [evenPool] evenLedger (some .fails)).plan leaving Progress.start =
          (.ok plan, progress) := h
      rw [h] at hleaving
      cases hleaving
      have hsmall : ∀ c ∈ leavingPlan.event.paid ++ leavingPlan.event.received,
          c.amount.raw.natAbs < 10 ^ 20 := by decide
      exact Nat.lt_of_lt_of_le (hsmall c hc) (Nat.pow_le_pow_right (by decide) (by decide))
    · cases hops
      intro plan progress h
      rw [h] at hlost
      cases hlost
    · simp at hops
  obtain ⟨events, htrail, hevents, _⟩ := exists_trail hstocked ⟨rfl, .fails, rfl⟩ hprints
  have hafter : ((keeping [evenPool] evenLedger (some .fails)).after
      [(default, leaving), (default, lost)]).events = [leavingPlan.event] := by decide +kernel
  obtain rfl : events = [leavingPlan.event] := by
    rw [hafter] at hevents
    exact hevents.symm
  exact ⟨_, htrail⟩

end Market

end WeightedMarket
