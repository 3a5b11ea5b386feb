/-
  What committing a plan does to the market.

  A plan is carried out transfer by transfer, and the pool is stored last.  If that is refused, a
  prefix of the transfers has been made and no pool has been stored (`carryOut_eq_error`); the
  transaction then brings both parts back (`restore_save`).  So a request leaves the repository and
  the ledger as they were, or with all of its plan done (`attempt_eq_ok`, `attempt_eq_error`).

  All of this is about a repository in memory: the documents of a folder are not brought back.
-/
import WeightedMarket.Market.Perform
import WeightedMarket.Proofs.Settlement

namespace WeightedMarket

/-- A ledger that some transfers were made on is brought back by the copy taken before them. -/
theorem Ledger.restore_save (l : Ledger) (made : List Transfer) :
    (made.foldl moved l).restore l.save = l := by
  simp [restore, save]

namespace Market

variable {m m' m₁ : Market}

/-- Whatever the parts at work do not touch is the same in two markets. -/
structure Agrees (m m' : Market) : Prop where
  clock : m'.clock = m.clock
  settings : m'.settings = m.settings
  observer : m'.observer = m.observer
  scope : m'.scope = m.scope
  events : m'.events = m.events

namespace Agrees

theorem refl (m : Market) : Agrees m m := ⟨rfl, rfl, rfl, rfl, rfl⟩

theorem trans (h : Agrees m m₁) (h' : Agrees m₁ m') : Agrees m m' :=
  ⟨h'.clock.trans h.clock, h'.settings.trans h.settings, h'.observer.trans h.observer,
    h'.scope.trans h.scope, h'.events.trans h.events⟩

end Agrees

/-- The market after some transfers were made in it, and nothing else. -/
structure Made (m : Market) (made : List Transfer) (m' : Market) : Prop where
  agrees : Agrees m m'
  repository : m'.repository = m.repository
  ledger : m'.ledger = made.foldl Ledger.moved m.ledger

namespace Made

theorem nil (m : Market) : Made m [] m := ⟨Agrees.refl m, rfl, rfl⟩

/-- Transfers that were made one batch after the other were made. -/
theorem append {made made' : List Transfer} (h : Made m made m₁) (h' : Made m₁ made' m') :
    Made m (made ++ made') m' where
  agrees := h.agrees.trans h'.agrees
  repository := h'.repository.trans h.repository
  ledger := by rw [h'.ledger, h.ledger, List.foldl_append]

/-- What is written down moves nothing. -/
theorem journaled (m : Market) (journal : List Entry) : Made m [] { m with journal } :=
  ⟨⟨rfl, rfl, rfl, rfl, rfl⟩, rfl, rfl⟩

end Made

/-! ## One transfer -/

/-- A transfer that is made has been admitted. -/
theorem transfer_eq_ok {t : Transfer} (h : transfer t m = (.ok (), m')) :
    m.ledger.admit? t = .ok () ∧ Made m [t] m' := by
  obtain ⟨_, _, hlook, h⟩ := Action.bind_eq_ok.mp h
  cases hlook
  obtain ⟨_, _, hcount, h⟩ := Action.bind_eq_ok.mp h
  cases hcount
  obtain ⟨_, _, hfault, h⟩ := Action.bind_eq_ok.mp h
  cases congrArg Prod.snd hfault
  -- the call has been counted and the fault drawn; what is left is up to the ledger
  cases hadmit : m.ledger.admit? t with
  | error f =>
    have herror := congrArg Prod.fst h
    simp [onLedger, Ledger.transfer, Action.look, Action.decide, hadmit] at herror
  | ok _ =>
    have hstate := congrArg Prod.snd h
    simp only [onLedger, Ledger.transfer, Action.bind_apply, Action.look, Action.decide, hadmit,
      Action.change] at hstate
    subst hstate
    exact ⟨rfl, ⟨rfl, rfl, rfl, rfl, rfl⟩, rfl, rfl⟩

/-- A transfer that is refused moves nothing. -/
theorem transfer_eq_error {t : Transfer} {f : Failure} (h : transfer t m = (.error f, m')) :
    Made m [] m' := by
  have hstate := congrArg Prod.snd h
  simp only [transfer, Action.bind_apply, Action.look, Action.change, Action.decide] at hstate
  cases hfault : require (m.faults.transfer != some m.transferCalls) (.simulatedTransfer t.coin) with
  | error f =>
    simp only [hfault] at hstate
    subst hstate
    exact ⟨⟨rfl, rfl, rfl, rfl, rfl⟩, rfl, rfl⟩
  | ok _ =>
    cases hadmit : m.ledger.admit? t with
    | error f =>
      simp only [hfault, onLedger, Ledger.transfer, Action.bind_apply, Action.look, Action.decide,
        hadmit] at hstate
      subst hstate
      exact ⟨⟨rfl, rfl, rfl, rfl, rfl⟩, rfl, rfl⟩
    | ok _ =>
      have hok := congrArg Prod.fst h
      simp [transfer, Action.look, Action.change, Action.decide, hfault, onLedger, Ledger.transfer,
        hadmit] at hok

/-! ## All transfers, and the pool -/

/-- A walk over transfers that was answered made all of them. -/
theorem transfers_eq_ok {ts : List Transfer} (h : ts.forM transfer m = (.ok (), m')) :
    Made m ts m' := by
  induction ts generalizing m with
  | nil =>
    cases congrArg Prod.snd h
    exact .nil _
  | cons t ts ih =>
    obtain ⟨_, m₁, ht, h⟩ := Action.bind_eq_ok.mp h
    exact (transfer_eq_ok ht).2.append (ih h)

/-- Transfers of which one is refused were made up to that one. -/
theorem transfers_eq_error {ts : List Transfer} {f : Failure}
    (h : ts.forM transfer m = (.error f, m')) : ∃ made, made <+: ts ∧ Made m made m' := by
  induction ts generalizing m with
  | nil => cases congrArg Prod.fst h
  | cons t ts ih =>
    have hseq : (t :: ts).forM transfer m = (transfer t >>= fun _ => ts.forM transfer) m := rfl
    rw [hseq, Action.bind_apply] at h
    rcases ht : transfer t m with ⟨_ | _, m₁⟩
    · -- the first one is refused, so none was made
      rw [ht] at h
      cases h
      exact ⟨[], List.nil_prefix, transfer_eq_error ht⟩
    · rw [ht] at h
      obtain ⟨made, hprefix, hmade⟩ := ih h
      exact ⟨t :: made, (List.cons_prefix_cons).mpr ⟨rfl, hprefix⟩, (transfer_eq_ok ht).2.append hmade⟩

variable {pools : Table Int Pool}

/-- Storing a pool on a shelf puts it there, or is refused and does nothing. -/
theorem store_cases (hshelf : m.repository = .shelf pools) (p : Pool) :
    Agrees m (store p m).2 ∧ (store p m).2.ledger = m.ledger ∧
      ((store p m).1 = .ok () ∧ (store p m).2.repository = .shelf (pools.put p.id p) ∨
        (∃ f, (store p m).1 = .error f) ∧ (store p m).2.repository = m.repository) := by
  simp only [store, Action.bind_apply, Action.look, Action.change, Action.decide]
  cases hfault : require (m.faults.store != some m.storeCalls) (.storeRefused p.id) with
  | error f => exact ⟨⟨rfl, rfl, rfl, rfl, rfl⟩, rfl, .inr ⟨⟨f, rfl⟩, rfl⟩⟩
  | ok _ =>
    simp only [onRepository, hshelf, Repository.store, Repository.storeNote?, Action.pure_apply]
    exact ⟨⟨rfl, rfl, rfl, rfl, rfl⟩, trivial, .inl ⟨trivial, trivial⟩⟩

/-- The market after a plan was done in it. -/
structure Done (m : Market) (pools : Table Int Pool) (plan : Plan) (m' : Market) : Prop where
  agrees : Agrees m m'
  repository : m'.repository = .shelf (pools.put plan.pool.id plan.pool)
  ledger : m'.ledger = plan.transfers.foldl Ledger.moved m.ledger

theorem Made.done {plan : Plan} (h : Made m [] m₁) (h' : Done m₁ pools plan m') :
    Done m pools plan m' where
  agrees := h.agrees.trans h'.agrees
  repository := h'.repository
  ledger := by rw [h'.ledger, h.ledger, List.foldl_nil]

theorem Done.journaled {plan : Plan} (h : Done m pools plan m') (journal : List Entry) :
    Done m pools plan { m' with journal } :=
  ⟨⟨h.agrees.clock, h.agrees.settings, h.agrees.observer, h.agrees.scope, h.agrees.events⟩,
    h.repository, h.ledger⟩

/-- A plan that was carried out is done: its transfers are made and its pool is on the shelf. -/
theorem carryOut_eq_ok {plan : Plan} (hshelf : m.repository = .shelf pools)
    (h : carryOut plan m = (.ok (), m')) : Done m pools plan m' := by
  obtain ⟨_, m₁, htransfers, h⟩ := Action.bind_eq_ok.mp h
  have hmade := transfers_eq_ok htransfers
  obtain ⟨hagrees, hledger, hstored | ⟨⟨f, hf⟩, _⟩⟩ :=
    store_cases (hmade.repository.trans hshelf) plan.pool
  · rw [h] at hagrees hledger hstored
    exact ⟨hmade.agrees.trans hagrees, hstored.2, hledger.trans hmade.ledger⟩
  · rw [h] at hf
    cases hf

/-- A plan that is refused on the way has made some of its transfers, and stored nothing. -/
theorem carryOut_eq_error {plan : Plan} {f : Failure} (hshelf : m.repository = .shelf pools)
    (h : carryOut plan m = (.error f, m')) : ∃ made, made <+: plan.transfers ∧ Made m made m' := by
  rcases htransfers : plan.transfers.forM transfer m with ⟨e | _, m₁⟩
  · -- a transfer is refused
    have hstate := congrArg Prod.snd h
    simp only [carryOut, Action.bind_apply, htransfers] at hstate
    subst hstate
    exact transfers_eq_error htransfers
  · -- all of them are made, and the pool is refused
    have hmade := transfers_eq_ok htransfers
    simp only [carryOut, Action.bind_apply, htransfers] at h
    obtain ⟨hagrees, hledger, ⟨hok, _⟩ | ⟨_, hrepository⟩⟩ :=
      store_cases (hmade.repository.trans hshelf) plan.pool
    · rw [h] at hok
      cases hok
    · rw [h] at hagrees hledger hrepository
      exact ⟨plan.transfers, List.prefix_refl _, hmade.agrees.trans hagrees,
        hrepository.trans hmade.repository, hledger.trans hmade.ledger⟩

/-! ## Commits -/

/-- Both parts are brought back. -/
theorem rolledBack_of_made {made : List Transfer} (hshelf : m.repository = .shelf pools)
    (h : Made m made m') :
    Made m [] (m'.rolledBack [.repository m.repository, .ledger m.ledger.save]) where
  agrees := ⟨h.agrees.clock, h.agrees.settings, h.agrees.observer, h.agrees.scope, h.agrees.events⟩
  repository := by
    show m'.repository.restore m.repository = m.repository
    rw [h.repository, hshelf]
    rfl
  ledger := by
    show m'.ledger.restore m.ledger.save = m.ledger
    rw [h.ledger]
    exact Ledger.restore_save m.ledger made

/-- A request that is granted was planned, whatever the market keeps its pools in. -/
theorem planned_of_attempt {r : Request} {plan : Plan} (h : attempt r m = (.ok plan, m')) :
    Planned m r plan := by
  rcases hplan : m.plan r Progress.start with ⟨_ | plan', progress⟩
  · simp [attempt, hplan] at h
  · simp only [attempt, hplan] at h
    split at h
    · cases h
    · cases h
      exact planned_of_plan hplan

variable (hshelf : m.repository = .shelf pools) (hscope : m.scope = some [.repository, .ledger])

include hshelf hscope

/-- A commit that was answered has carried out its plan, whatever the observer did. -/
theorem commit_eq_ok {plan : Plan} (h : commit plan m = (.ok (), m')) : Done m pools plan m' := by
  simp only [commit, Action.bind_apply, Action.look, hscope, transaction] at h
  rcases hdone : carryOut plan m with ⟨_ | _, m₁⟩
  · simp [hdone] at h
  · rw [hdone] at h
    cases h
    exact carryOut_eq_ok hshelf hdone

/-- A commit that was refused has made nothing. -/
theorem commit_eq_error {plan : Plan} {f : Failure} (h : commit plan m = (.error f, m')) :
    Made m [] m' := by
  simp only [commit, Action.bind_apply, Action.look, hscope, transaction] at h
  rcases hdone : carryOut plan m with ⟨_ | _, m₁⟩
  · rw [hdone] at h
    cases h
    obtain ⟨made, _, hmade⟩ := carryOut_eq_error hshelf hdone
    exact rolledBack_of_made hshelf hmade
  · simp [hdone] at h

/-- **A request that is granted** was planned, and its plan has been done. -/
theorem attempt_eq_ok {r : Request} {plan : Plan} (h : attempt r m = (.ok plan, m')) :
    (∃ progress, m.plan r Progress.start = (.ok plan, progress)) ∧ Done m pools plan m' := by
  rcases hplan : m.plan r Progress.start with ⟨_ | plan', progress⟩
  · simp [attempt, hplan] at h
  · simp only [attempt, hplan] at h
    have hkept := Made.journaled m (m.journal ++ progress.entries)
    rcases hcommit : commit plan' { m with journal := m.journal ++ progress.entries } with ⟨_ | _, m₁⟩
    · simp [hcommit] at h
    · rw [hcommit] at h
      cases h
      have hdone := commit_eq_ok (hkept.repository.trans hshelf) (hkept.agrees.scope.trans hscope) hcommit
      exact ⟨⟨progress, rfl⟩, (hkept.done hdone).journaled _⟩

/-- **A request that is refused** leaves both parts as they were. -/
theorem attempt_eq_error {r : Request} {f : Failure} (h : attempt r m = (.error f, m')) :
    Made m [] m' := by
  rcases hplan : m.plan r Progress.start with ⟨_ | plan', progress⟩
  · -- there is no plan, and the refusal is written down
    simp only [attempt, hplan] at h
    cases h
    exact .journaled m _
  · simp only [attempt, hplan] at h
    have hkept := Made.journaled m (m.journal ++ progress.entries)
    rcases hcommit : commit plan' { m with journal := m.journal ++ progress.entries } with ⟨_ | _, m₁⟩
    · rw [hcommit] at h
      cases h
      have hmade := commit_eq_error (hkept.repository.trans hshelf) (hkept.agrees.scope.trans hscope)
        hcommit
      exact (hkept.append hmade).append (.journaled m₁ _)
    · simp [hcommit] at h

omit hshelf hscope

/-- Telling the observer touches neither part, whatever becomes of it. -/
theorem notify_keeps (event : Event) (m : Market) :
    (notify event m).2.repository = m.repository ∧ (notify event m).2.ledger = m.ledger ∧
      (notify event m).2.scope = m.scope := by
  simp only [notify, Action.bind_apply, Action.decide, note, Action.change, Action.look, noted]
  cases (event.paid ++ event.received).forM fun c => discard c.written with
  | error f => exact ⟨rfl, rfl, rfl⟩
  | ok _ =>
    dsimp only
    cases m.observer with
    | none => exact ⟨rfl, rfl, rfl⟩
    | some observer => cases observer <;> exact ⟨rfl, rfl, rfl⟩

include hshelf hscope

/-- **Performing a request** leaves both parts as they were, or with a whole plan done. -/
theorem perform_cases (r : Request) :
    (perform r m).2.scope = m.scope ∧
      ((perform r m).2.repository = m.repository ∧ (perform r m).2.ledger = m.ledger ∨
        ∃ plan progress, m.plan r Progress.start = (.ok plan, progress) ∧
          (perform r m).2.repository = .shelf (pools.put plan.pool.id plan.pool) ∧
          (perform r m).2.ledger = plan.transfers.foldl Ledger.moved m.ledger) := by
  rcases hattempt : attempt r m with ⟨f | plan, m₁⟩
  · have hmade := attempt_eq_error hshelf hscope hattempt
    rw [perform, Action.bind_apply, hattempt]
    exact ⟨hmade.agrees.scope, .inl ⟨hmade.repository, hmade.ledger⟩⟩
  · obtain ⟨⟨progress, hplan⟩, hdone⟩ := attempt_eq_ok hshelf hscope hattempt
    obtain ⟨hrepository, hledger, hscope'⟩ := notify_keeps plan.event m₁
    have hstate : (perform r m).2 = (notify plan.event m₁).2 := by
      rw [perform, Action.bind_apply, hattempt]
      rcases hnotify : notify plan.event m₁ with ⟨_ | _, m₂⟩ <;> simp [hnotify]
    rw [hstate, hrepository, hledger, hscope']
    exact ⟨hdone.agrees.scope, .inr ⟨plan, progress, hplan, hdone.repository, hdone.ledger⟩⟩

end Market

/-! ## A small market -/

namespace Market

/-- A market that keeps pools on a shelf and commits in a transaction, with nothing made to fail. -/
def keeping (pools : List Pool) (ledger : Ledger) (observer : Option Observer) : Market where
  repository := .shelf (Table.ofList (pools.map fun p => (p.id, p)))
  ledger := ledger
  clock := default
  settings := .default
  observer := observer
  scope := some [.repository, .ledger]
  faults := .none
  transferCalls := 0
  storeCalls := 0
  events := []
  journal := []

end Market

/-- A pool of two assets in equal parts, without fees. -/
def evenPool : Pool where
  id := 1
  assets := [⟨"a", .ofInt 100, .one, 6⟩, ⟨"b", .ofInt 100, .one, 6⟩]
  totalShares := .ofInt 100
  swapFee := .zero
  exitFee := .zero
  window := none
  shareDecimals := 18

theorem evenPool_valid : evenPool.Valid := by decide

/-- The reserves of `evenPool`, and its shares in the hands of one account. -/
def evenLedger : Ledger :=
  (((Ledger.empty.register evenPool.address evenPool.shareDenom).mint evenPool.address
    ⟨"a", .ofInt 100⟩).mint evenPool.address ⟨"b", .ofInt 100⟩).moved
      ⟨evenPool.address, "alice", ⟨evenPool.shareDenom, .ofInt 100⟩⟩

/-- A tenth of the shares of `evenPool` is redeemed. -/
def leaving : Request := ⟨"alice", 1, .exit (.ofInt 10)⟩

/-- The plan of `leaving`. -/
def leavingPlan : Plan where
  pool := { evenPool with
    assets := [⟨"a", .ofInt 90, .one, 6⟩, ⟨"b", .ofInt 90, .one, 6⟩], totalShares := .ofInt 90 }
  event := ⟨.exit, 1, "alice", [⟨evenPool.shareDenom, .ofInt 10⟩],
    [⟨"a", .ofInt 10⟩, ⟨"b", .ofInt 10⟩]⟩
  receipt := .coins [⟨"a", .ofInt 10⟩, ⟨"b", .ofInt 10⟩]

/-- The redemption is granted, whoever observes it. -/
theorem attempt_leaving (observer : Option Observer) :
    (Market.attempt leaving (Market.keeping [evenPool] evenLedger observer)).1 = .ok leavingPlan := by
  rcases observer with _ | _ | _ <;> decide +kernel

end WeightedMarket
