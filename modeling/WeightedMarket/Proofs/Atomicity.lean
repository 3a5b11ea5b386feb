/-
  Operations are done as a whole or not at all.

  A refusal can come at any point: from a rule, from the engine, from a transfer that the ledger
  refuses or is made to fail on, from the repository.  Nothing of it is left, because nothing is
  touched before the commit and the commit is undone (`attempt_eq_error`).  After the commit there
  is only the observer to be told, and what becomes of that changes nothing any more.

  The one refusal after the commit is that of a coin that has no text and so cannot be written down,
  so the statements are about coins of at most a million digits before the point.
-/
import WeightedMarket.Proofs.Commit

namespace WeightedMarket.Market

open Decision

variable {m m' : Market} {r : Request}

/-- The coins that would change hands have at most a million digits before the point. -/
def Prints (m : Market) (r : Request) : Prop :=
  ∀ plan progress, m.plan r Progress.start = (.ok plan, progress) →
    ∀ c ∈ plan.event.paid ++ plan.event.received, c.amount.raw.natAbs < 10 ^ Fixed.maxDigits

/-! ## Telling the observer -/

/-- A coin of at most a million digits has a text. -/
theorem written_of_lt {c : Coin} (h : c.amount.raw.natAbs < 10 ^ Fixed.maxDigits) :
    ∃ text, c.written = .ok text := by
  have hprints : c.amount.printable = true := by
    rw [Fixed.printable, Bool.or_eq_true, decide_eq_true_iff, decide_eq_true_iff]
    -- the bound is not to be computed
    generalize Fixed.maxDigits = digits at h ⊢
    exact .inr h
  refine ⟨c.amount.text ++ c.denom, ?_⟩
  rw [Coin.written, Fixed.written, if_pos hprints]
  rfl

/-- What the observer has been told of when it has been told of one more event. -/
def told (m : Market) (event : Event) : List Event :=
  match m.observer with
  | none => m.events
  | some _ => m.events ++ [event]

/-- Whatever the observer does, the parts stay as they are and its failure goes no further. -/
theorem notify_eq_ok {event : Event}
    (hprints : ∀ c ∈ event.paid ++ event.received, c.amount.raw.natAbs < 10 ^ Fixed.maxDigits) :
    ∃ m', notify event m = (.ok (), m') ∧ m'.repository = m.repository ∧ m'.ledger = m.ledger ∧
      m'.events = m.told event := by
  have hwritten : ((event.paid ++ event.received).forM fun c => discard c.written) = .ok () := by
    rw [forM_eq_ok]
    intro c hc
    exact discard_eq_ok.mpr (written_of_lt (hprints c hc))
  simp only [notify, Action.bind_apply, Action.decide, hwritten, note, Action.change, Action.look,
    noted, told]
  cases hobserver : m.observer with
  | none => exact ⟨_, rfl, rfl, rfl, rfl⟩
  | some observer =>
    cases observer with
    | records => exact ⟨_, rfl, rfl, rfl, rfl⟩
    | fails => exact ⟨_, rfl, rfl, rfl, rfl⟩

/-! ## Performing a request -/

theorem perform_eq_of_attempt_error {f : Failure} (h : attempt r m = (.error f, m')) :
    perform r m = (.error f, m') := by
  rw [perform, Action.bind_apply, h]

theorem perform_eq_of_attempt_ok {plan : Plan} (h : attempt r m = (.ok plan, m')) {m₂ : Market}
    (hnotify : notify plan.event m' = (.ok (), m₂)) : perform r m = (.ok plan.receipt, m₂) := by
  simp only [perform, Action.bind_apply, h, hnotify, Action.pure_apply]

/-- **All or nothing.**  A request that raises leaves the pools, the ledger and the observer's events
as they were, whichever transfer or store is made to fail; and a request that was committed answers
with its receipt, its plan done, even if the observer fails. -/
theorem perform_all_or_nothing {pools : Table Int Pool} (hshelf : m.repository = .shelf pools)
    (hscope : m.scope = some [.repository, .ledger]) (hprints : m.Prints r) :
    (∀ f m', perform r m = (.error f, m') →
      m'.repository = m.repository ∧ m'.ledger = m.ledger ∧ m'.events = m.events) ∧
    (m.observer = some .fails → ∀ plan m₁, attempt r m = (.ok plan, m₁) →
      ∃ m', perform r m = (.ok plan.receipt, m') ∧
        m'.repository = .shelf (pools.put plan.pool.id plan.pool) ∧
        m'.ledger = plan.transfers.foldl Ledger.moved m.ledger ∧
        m'.events = m.events ++ [plan.event]) := by
  rcases hattempt : attempt r m with ⟨f | plan, m₁⟩
  · -- refused before the commit was over
    have hmade := attempt_eq_error hshelf hscope hattempt
    refine ⟨?_, by intro _ plan m₂ h; cases h⟩
    intro f' m' h
    rw [perform_eq_of_attempt_error hattempt] at h
    cases h
    exact ⟨hmade.repository, hmade.ledger, hmade.agrees.events⟩
  · -- committed, so that no refusal is left
    obtain ⟨⟨progress, hplan⟩, hdone⟩ := attempt_eq_ok hshelf hscope hattempt
    obtain ⟨m₂, hnotify, hrepository, hledger, hevents⟩ :=
      notify_eq_ok (m := m₁) (hprints plan progress hplan)
    have hperform := perform_eq_of_attempt_ok hattempt hnotify
    constructor
    · intro f m' h
      rw [hperform] at h
      cases h
    · intro hfails plan' m' h
      cases h
      refine ⟨m₂, hperform, hrepository.trans hdone.repository, hledger.trans hdone.ledger, ?_⟩
      rw [hevents, told, hdone.agrees.observer, hfails, hdone.agrees.events]

/-- The observer of `evenPool`'s market fails, and the redemption stands. -/
theorem leaving_all_or_nothing :
    ∃ m', perform leaving (keeping [evenPool] evenLedger (some .fails)) =
        (.ok leavingPlan.receipt, m') ∧
      m'.repository = .shelf ⟨[(1, leavingPlan.pool)]⟩ ∧
      m'.ledger = leavingPlan.transfers.foldl Ledger.moved evenLedger ∧
      m'.events = [leavingPlan.event] := by
  have hplan : ((keeping [evenPool] evenLedger (some .fails)).plan leaving Progress.start).1 =
      .ok leavingPlan := by decide +kernel
  have hprints : (keeping [evenPool] evenLedger (some .fails)).Prints leaving := by
    intro plan progress h c hc
    rw [h] at hplan
    cases hplan
    have hsmall : ∀ c ∈ leavingPlan.event.paid ++ leavingPlan.event.received,
        c.amount.raw.natAbs < 10 ^ 20 := by decide
    exact Nat.lt_of_lt_of_le (hsmall c hc) (Nat.pow_le_pow_right (by decide) (by decide))
  have hattempt : attempt leaving (keeping [evenPool] evenLedger (some .fails)) =
      (.ok leavingPlan, (attempt leaving (keeping [evenPool] evenLedger (some .fails))).2) :=
    Prod.ext (attempt_leaving _) rfl
  exact (perform_all_or_nothing rfl rfl hprints).2 rfl _ _ hattempt

end WeightedMarket.Market
