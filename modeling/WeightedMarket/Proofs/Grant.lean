/-
  When a request is granted.

  With nothing made to fail, what becomes of a request is settled before anything is moved: it needs a
  plan, the ledger must admit the plan's transfers one after the other, and the repository must take the
  staged pool.  `Market.granted` asks these three questions and touches nothing; what `perform` answers is
  read off it (`perform_answer`), and so is what it leaves of both parts (`attempt_parts`,
  `perform_parts`).

  What surrounds the parts is left alone by every action on the way (`keeps_perform`).
-/
import WeightedMarket.Proofs.Atomicity
import WeightedMarket.Proofs.History

namespace WeightedMarket

open Decision

/-! ## What actions leave alone -/

namespace Action

variable {σ γ α β : Type} {g : σ → γ}

/-- However an action ends, a reading of the state is what it was. -/
def Keeps (g : σ → γ) (x : Action σ α) : Prop := ∀ s, g (x s).2 = g s

/-- A sequence keeps what both of its halves keep. -/
theorem Keeps.bind {x : Action σ α} {f : α → Action σ β} (hx : Keeps g x) (hf : ∀ a, Keeps g (f a)) :
    Keeps g (x >>= f) := by
  intro s
  have hkept := hx s
  rw [bind_apply]
  rcases hfirst : x s with ⟨_ | a, s'⟩ <;> rw [hfirst] at hkept
  · exact hkept
  · exact (hf a s').trans hkept

/-- A walk keeps what each of its steps keeps. -/
theorem Keeps.forM {f : α → Action σ Unit} (hf : ∀ a, Keeps g (f a)) (l : List α) :
    Keeps g (l.forM f) := by
  induction l with
  | nil => exact fun _ => rfl
  | cons a l ih => exact (hf a).bind fun _ => ih

end Action

namespace Market

variable {m m' m₁ : Market} {r : Request} {plan : Plan}

/-- What surrounds the parts of a market and decides over a request with them. -/
def surroundings (m : Market) : Moment × Settings × Option (List Part) × Faults :=
  (m.clock, m.settings, m.scope, m.faults)

/-- A transfer touches the ledger and nothing around it. -/
theorem keeps_transfer (t : Transfer) : (transfer t).Keeps surroundings :=
  Action.Keeps.bind (fun _ => rfl) fun _ => Action.Keeps.bind (fun _ => rfl) fun _ =>
    Action.Keeps.bind (fun _ => rfl) fun _ _ => rfl

/-- Storing a pool touches the repository and nothing around it. -/
theorem keeps_store (p : Pool) : (store p).Keeps surroundings := by
  refine Action.Keeps.bind (fun _ => rfl) fun m => Action.Keeps.bind (fun _ => rfl) fun _ =>
    Action.Keeps.bind (fun _ => rfl) fun _ => Action.Keeps.bind (fun _ => rfl) fun _ => ?_
  split <;> exact fun _ => rfl

/-- A plan is carried out by transfers and one pool that is stored. -/
theorem keeps_carryOut (plan : Plan) : (carryOut plan).Keeps surroundings :=
  (Action.Keeps.forM keeps_transfer plan.transfers).bind fun _ => keeps_store plan.pool

/-- Rolling back brings back parts of the market, not what is around them. -/
theorem surroundings_rolledBack (m : Market) (saved : List Savepoint) :
    (m.rolledBack saved).surroundings = m.surroundings := by
  show (saved.foldl restore m).surroundings = m.surroundings
  induction saved generalizing m with
  | nil => rfl
  | cons s saved ih =>
    rw [List.foldl_cons, ih]
    cases s <;> rfl

theorem keeps_commit (plan : Plan) : (commit plan).Keeps surroundings := by
  refine Action.Keeps.bind (fun _ => rfl) fun m => ?_
  cases m.scope with
  | none => exact keeps_carryOut plan
  | some parts =>
    intro m
    have hkept := keeps_carryOut plan m
    simp only [transaction]
    rcases hdone : carryOut plan m with ⟨_ | _, m'⟩ <;> rw [hdone] at hkept
    · exact (surroundings_rolledBack m' _).trans hkept
    · exact hkept

/-- Whatever becomes of a request, the surroundings stay as they are. -/
theorem keeps_attempt (r : Request) : (attempt r).Keeps surroundings := by
  intro m
  simp only [attempt]
  rcases m.plan r Progress.start with ⟨_ | plan, progress⟩
  · rfl
  · have hkept := keeps_commit plan { m with journal := m.journal ++ progress.entries }
    dsimp only
    rcases hcommit : commit plan { m with journal := m.journal ++ progress.entries } with ⟨_ | _, m'⟩ <;>
      rw [hcommit] at hkept <;> exact hkept

theorem keeps_notify (event : Event) : (notify event).Keeps surroundings := by
  refine Action.Keeps.bind (fun _ => rfl) fun _ => Action.Keeps.bind (fun _ => rfl) fun _ =>
    Action.Keeps.bind (fun _ => rfl) fun m => ?_
  cases m.observer with
  | none => exact fun _ => rfl
  | some observer => cases observer <;> exact fun _ => rfl

/-- **Performing a request** leaves alone what surrounds the parts. -/
theorem keeps_perform (r : Request) : (perform r).Keeps surroundings :=
  (keeps_attempt r).bind fun plan => (keeps_notify plan.event).bind fun _ _ => rfl

end Market

/-! ## The three questions -/

/-- Whether a ledger admits transfers, each after the ones before it. -/
def Ledger.admitAll? (l : Ledger) : List Transfer → Except Failure Unit
  | [] => .ok ()
  | t :: ts => do
    l.admit? t
    (l.moved t).admitAll? ts

/-- Whether every coin of an event has a text. -/
def Event.writable (e : Event) : Except Failure Unit :=
  (e.paid ++ e.received).forM fun c => discard c.written

/-- An event whose amounts are all short enough can be written down. -/
theorem Event.writable_of_lt {e : Event}
    (h : ∀ c ∈ e.paid ++ e.received, c.amount.raw.natAbs < 10 ^ Fixed.maxDigits) :
    e.writable = .ok () := by
  rw [writable, forM_eq_ok]
  exact fun c hc => discard_eq_ok.mpr (Market.written_of_lt (h c hc))

namespace Market

variable {m m' m₁ : Market} {r : Request} {plan : Plan}

/-- Whether both parts take a plan. -/
def takes (m : Market) (plan : Plan) : Except Failure Unit := do
  m.ledger.admitAll? plan.transfers
  (Repository.store plan.pool m.repository).1

/-- Whether a request is granted, and the plan that it is granted with. -/
def granted (m : Market) (r : Request) : Except Failure Plan := do
  let plan ← (m.plan r Progress.start).1
  m.takes plan
  return plan

/-- With nothing made to fail, a transfer is answered as the ledger admits it. -/
theorem transfer_answer (hfaults : m.faults = .none) (t : Transfer) :
    (transfer t m).1 = m.ledger.admit? t := by
  simp only [transfer, Action.bind_apply, Action.look, Action.change, Action.decide, hfaults,
    Faults.none, onLedger, Ledger.transfer]
  have hnofault : require ((none : Option Nat) != some m.transferCalls) (.simulatedTransfer t.coin) =
      .ok () := rfl
  rw [hnofault]
  dsimp only
  rcases m.ledger.admit? t with _ | _ <;> rfl

/-- What keeps the surroundings makes nothing fail that did not fail before. -/
theorem faults_eq_of_keeps {α : Type} {x : Action Market α} (hx : x.Keeps surroundings) (m : Market) :
    (x m).2.faults = m.faults :=
  congrArg (fun s => s.2.2.2) (hx m)

/-- A walk over transfers is admitted or refused as the ledger says. -/
theorem transfers_answer (hfaults : m.faults = .none) (ts : List Transfer) :
    (ts.forM transfer m).1 = m.ledger.admitAll? ts := by
  induction ts generalizing m with
  | nil => rfl
  | cons t ts ih =>
    have hseq : (t :: ts).forM transfer m = (transfer t >>= fun _ => ts.forM transfer) m := rfl
    have hanswer := transfer_answer hfaults t
    have hkept := faults_eq_of_keeps (keeps_transfer t) m
    rw [hseq, Action.bind_apply, Ledger.admitAll?, ← hanswer]
    rcases htransfer : transfer t m with ⟨_ | _, m₁⟩
    · rfl
    · rw [htransfer] at hkept
      rw [ih (hkept.trans hfaults), (transfer_eq_ok htransfer).2.ledger]
      rfl

/-- Storing a pool answers as the repository does. -/
theorem store_answer (hfaults : m.faults = .none) (p : Pool) :
    (store p m).1 = (Repository.store p m.repository).1 := by
  simp only [store, Action.bind_apply, Action.look, Action.change, Action.decide, hfaults, Faults.none,
    onRepository]
  have hnofault : require ((none : Option Nat) != some m.storeCalls) (.storeRefused p.id) = .ok () := rfl
  rw [hnofault]
  dsimp only
  rcases Repository.store p m.repository with ⟨_ | _, repository⟩
  · rfl
  · dsimp only
    cases m.repository.storeNote? p <;> rfl

/-- Storing a pool leaves the ledger alone; it is refused at once, or does what the repository does. -/
theorem store_outcome (p : Pool) (m : Market) : (store p m).2.ledger = m.ledger ∧
    ((∃ f, (store p m).1 = .error f) ∧ (store p m).2.repository = m.repository ∨
      (store p m).1 = (Repository.store p m.repository).1 ∧
        (store p m).2.repository = (Repository.store p m.repository).2) := by
  simp only [store, Action.bind_apply, Action.look, Action.change, Action.decide]
  cases require (m.faults.store != some m.storeCalls) (.storeRefused p.id) with
  | error f => exact ⟨rfl, .inl ⟨⟨f, rfl⟩, rfl⟩⟩
  | ok _ =>
    simp only [onRepository]
    rcases Repository.store p m.repository with ⟨_ | _, repository⟩
    · exact ⟨rfl, .inr ⟨rfl, rfl⟩⟩
    · dsimp only
      cases m.repository.storeNote? p <;> exact ⟨rfl, .inr ⟨rfl, rfl⟩⟩

theorem store_eq_ok {p : Pool} (h : store p m = (.ok (), m')) :
    m'.repository = (Repository.store p m.repository).2 ∧ m'.ledger = m.ledger := by
  obtain ⟨hledger, hcases⟩ := store_outcome p m
  rw [h] at hledger hcases
  rcases hcases with ⟨⟨f, hf⟩, -⟩ | ⟨-, hrepository⟩
  · cases hf
  · exact ⟨hrepository, hledger⟩

/-- With nothing made to fail, a plan is carried out exactly if the market takes it. -/
theorem carryOut_answer (hfaults : m.faults = .none) (plan : Plan) :
    (carryOut plan m).1 = m.takes plan := by
  have hanswer := transfers_answer hfaults plan.transfers
  have hkept := faults_eq_of_keeps (Action.Keeps.forM keeps_transfer plan.transfers) m
  rw [carryOut, Action.bind_apply, takes, ← hanswer]
  rcases htransfers : plan.transfers.forM transfer m with ⟨_ | _, m₁⟩
  · rfl
  · rw [htransfers] at hkept
    rw [store_answer (hkept.trans hfaults), (transfers_eq_ok htransfers).repository]
    rfl

/-- A plan that was carried out stored its pool and made its transfers. -/
theorem carryOut_parts (h : carryOut plan m = (.ok (), m')) :
    m'.repository = (Repository.store plan.pool m.repository).2 ∧
      m'.ledger = plan.transfers.foldl Ledger.moved m.ledger := by
  obtain ⟨_, m₁, htransfers, h⟩ := Action.bind_eq_ok.mp h
  have hmade := transfers_eq_ok htransfers
  obtain ⟨hrepository, hledger⟩ := store_eq_ok h
  rw [hrepository, hledger, hmade.repository, hmade.ledger]
  exact ⟨rfl, rfl⟩

/-- A transaction answers what its inside answers. -/
theorem transaction_answer {α : Type} (parts : List Part) (x : Action Market α) (m : Market) :
    (transaction parts x m).1 = (x m).1 := by
  unfold transaction
  rcases x m with ⟨_ | _, _⟩ <;> rfl

/-- A transaction adds nothing to an action that is answered. -/
theorem transaction_eq_ok {α : Type} {parts : List Part} {x : Action Market α} {a : α}
    (h : transaction parts x m = (.ok a, m')) : x m = (.ok a, m') := by
  unfold transaction at h
  rcases hx : x m with ⟨_ | _, _⟩
  · rw [hx] at h
    cases h
  · rw [hx] at h
    exact h

/-- Whatever transaction a market has, its commits answer what carrying out answers. -/
theorem commit_answer (plan : Plan) (m : Market) : (commit plan m).1 = (carryOut plan m).1 := by
  rw [commit, Action.bind_apply, Action.look]
  dsimp only
  cases m.scope with
  | none => rfl
  | some parts => exact transaction_answer parts _ m

/-- A commit that was answered carried out its plan. -/
theorem commit_parts (h : commit plan m = (.ok (), m')) : carryOut plan m = (.ok (), m') := by
  rw [commit, Action.bind_apply, Action.look] at h
  dsimp only at h
  cases hscope : m.scope with
  | none =>
    rw [hscope] at h
    exact h
  | some parts =>
    rw [hscope] at h
    exact transaction_eq_ok h

/-- **What is attempted is granted**, or is refused with what refuses the grant. -/
theorem attempt_answer (hfaults : m.faults = .none) (r : Request) : (attempt r m).1 = m.granted r := by
  simp only [attempt, granted]
  rcases m.plan r Progress.start with ⟨_ | plan, progress⟩
  · rfl
  · have hfaults' : ({ m with journal := m.journal ++ progress.entries } : Market).faults = .none :=
      hfaults
    have hanswer : (commit plan { m with journal := m.journal ++ progress.entries }).1 = m.takes plan :=
      (commit_answer plan _).trans (carryOut_answer hfaults' plan)
    dsimp only
    rw [ok_bind, ← hanswer]
    rcases commit plan { m with journal := m.journal ++ progress.entries } with ⟨_ | _, m'⟩ <;> rfl

/-- What a granted request leaves of both parts. -/
theorem attempt_parts (h : attempt r m = (.ok plan, m')) :
    m'.repository = (Repository.store plan.pool m.repository).2 ∧
      m'.ledger = plan.transfers.foldl Ledger.moved m.ledger := by
  rcases hplan : m.plan r Progress.start with ⟨_ | plan', progress⟩
  · simp [attempt, hplan] at h
  · simp only [attempt, hplan] at h
    rcases hcommit : commit plan' { m with journal := m.journal ++ progress.entries } with ⟨_ | _, m₁⟩
    · simp [hcommit] at h
    · rw [hcommit] at h
      cases h
      obtain ⟨hrepository, hledger⟩ := carryOut_parts (commit_parts hcommit)
      exact ⟨hrepository, hledger⟩

/-- **What is performed** is what is granted, if its coins can be written down. -/
theorem perform_answer (hfaults : m.faults = .none) (r : Request) :
    (perform r m).1 = do
      let plan ← m.granted r
      plan.event.writable
      return plan.receipt := by
  rw [perform, Action.bind_apply, ← attempt_answer hfaults]
  rcases attempt r m with ⟨_ | plan, m₁⟩
  · rfl
  · simp only [Action.bind_apply, ok_bind]
    have hnotify : (notify plan.event m₁).1 = plan.event.writable := by
      simp only [notify, Action.bind_apply, Action.decide, note, Action.change, Action.look, noted,
        Event.writable]
      cases (plan.event.paid ++ plan.event.received).forM fun c => discard c.written with
      | error f => rfl
      | ok _ =>
        dsimp only
        cases m₁.observer with
        | none => rfl
        | some observer => cases observer <;> rfl
    rw [← hnotify]
    rcases notify plan.event m₁ with ⟨_ | _, m₂⟩ <;> rfl

/-- What performing leaves of both parts is what the attempt has left. -/
theorem perform_parts (r : Request) (m : Market) :
    (perform r m).2.repository = (attempt r m).2.repository ∧
      (perform r m).2.ledger = (attempt r m).2.ledger := by
  rw [perform, Action.bind_apply]
  rcases attempt r m with ⟨_ | plan, m₁⟩
  · exact ⟨rfl, rfl⟩
  · obtain ⟨hrepository, hledger, _⟩ := notify_keeps plan.event m₁
    dsimp only
    rw [Action.bind_apply]
    rcases hnotify : notify plan.event m₁ with ⟨_ | _, m₂⟩ <;> rw [hnotify] at hrepository hledger <;>
      exact ⟨hrepository, hledger⟩

end Market

end WeightedMarket
