/-
  Markets in whole units.

  `Market.Whole` says that every pool that can be loaded holds whole units.  Whatever becomes of a request
  for whole units, the market stays whole (`Market.whole_perform`), and that does not depend on a
  transaction: a request that is refused halfway leaves a first part of its transfers, with the pool stored
  or not (`Market.Leaves`), and each of these is in whole units (`Market.kept_of_plan`).

  A pool in a folder is read back from its document, which may not say all of its digits; but it is kept
  (`Repository.load_store`).
-/
import WeightedMarket.Proofs.Blocks
import WeightedMarket.Proofs.Deals
import WeightedMarket.Proofs.Document.Rereading
import WeightedMarket.Proofs.Grant
import WeightedMarket.Proofs.Loading

namespace WeightedMarket

open Decision

/-! ## Pools that were stored -/

namespace Folder

variable {d d' : Folder} {p q : Pool} {i : Int}

/-- Only the file of a pool counts when it is loaded. -/
theorem load_congr (hfile : d'.file? (nameOf i) = d.file? (nameOf i)) (hpath : d'.path = d.path) :
    d'.load i = d.load i := by
  simp only [load, read, pathOf, hpath, hfile]

theorem present_of_load (h : d.load i = .ok p) : d.present = true := by
  by_contra habsent
  have hnone : d.file? (nameOf i) = none := if_neg habsent
  simp only [load, requireWritable_eq_ok.mpr (isWritable_of_load h), ok_bind, hnone] at h
  exact refuse_ne_ok h

/-- Storing a pool writes its file, or does nothing to a folder that is there. -/
theorem store_leaves (hpresent : d.present = true) (p : Pool) :
    (store p d).2 = d ∨ ∃ content, Document.write p = .ok content ∧
      (store p d).2 = { d with files := d.files.put (nameOf p.id) (.text content) } := by
  obtain ⟨path, present, files⟩ := d
  obtain rfl : present = true := hpresent
  simp only [store, put, Action.bind_apply, Action.change, Action.decide, Action.look, require]
  cases Document.write p with
  | error f => exact .inl rfl
  | ok content =>
    cases requireWritable p.id with
    | error f => exact .inl rfl
    | ok _ =>
      by_cases hfolder : files.get? (nameOf p.id) = some .folder
      · left
        simp [hfolder, refuse]
      · right
        refine ⟨content, rfl, ?_⟩
        simp [hfolder]

/-- What is loaded after a pool was stored: what was loaded before, or the pool as its document keeps it. -/
theorem load_store (hpresent : d.present = true) (h : (store p d).2.load i = .ok q) :
    d.load i = .ok q ∨ p.id = i ∧ p.Kept q := by
  rcases store_leaves hpresent p with hsame | ⟨content, hwrite, hstored⟩
  · rw [hsame] at h
    exact .inl h
  · rw [hstored] at h
    have hfile : ({ d with files := d.files.put (nameOf p.id) (.text content) } : Folder).file?
        (nameOf i) = if p.id = i then some (.text content) else d.file? (nameOf i) := by
      simp only [file?, hpresent, if_true, Table.get?_put, nameOf_inj]
    by_cases hid : p.id = i
    · rw [if_pos hid] at hfile
      obtain ⟨document, hread, -, hmade⟩ := made_of_load hfile h
      exact .inr ⟨hid, Document.kept_of_made hwrite hread hmade⟩
    · rw [if_neg hid] at hfile
      exact .inl ((load_congr hfile rfl).symm.trans h)

end Folder

/-- **What a repository gives back** after a pool was stored in it: what it gave before, or a pool that is
kept. -/
theorem Repository.load_store {r : Repository} {p q p₀ : Pool} {i i₀ : Int} (hp : p.Valid)
    (hold : r.load i₀ = .ok p₀) (h : (store p r).2.load i = .ok q) :
    r.load i = .ok q ∨ p.id = i ∧ p.Kept q := by
  cases r with
  | shelf pools =>
    rcases Market.load_shelf_put h with ⟨hid, rfl⟩ | ⟨_, hsame⟩
    · exact .inr ⟨hid, .refl hp⟩
    · exact .inl hsame
  | folder d => exact Folder.load_store (Folder.present_of_load hold) h

namespace Market

variable {m m' m₁ : Market} {r : Request} {plan : Plan} {p : Pool}

/-! ## What a request leaves -/

/-- What may be left of a plan when it is carried out, however far that comes. -/
structure Leaves (m : Market) (plan : Plan) (m' : Market) : Prop where
  repository : m'.repository = m.repository ∨
    m'.repository = (Repository.store plan.pool m.repository).2
  transfers : ∃ made, made <+: plan.transfers ∧ m'.ledger.transfers = m.ledger.transfers ++ made

theorem Made.leaves {made : List Transfer} (h : Made m made m') (hpart : made <+: plan.transfers) :
    Leaves m plan m' := by
  refine ⟨.inl h.repository, made, hpart, ?_⟩
  rw [h.ledger, Ledger.transfers_foldl_moved]

/-- A plan leaves some of its transfers made, or all of them and its pool stored. -/
theorem carryOut_leaves (plan : Plan) (m : Market) : Leaves m plan (carryOut plan m).2 := by
  rw [carryOut, Action.bind_apply]
  rcases htransfers : plan.transfers.forM transfer m with ⟨f | _, m₁⟩
  · obtain ⟨made, hpart, hmade⟩ := transfers_eq_error htransfers
    exact hmade.leaves hpart
  · have hmade := transfers_eq_ok htransfers
    obtain ⟨hledger, hrepository⟩ := store_outcome plan.pool m₁
    obtain ⟨made, hpart, htold⟩ := (hmade.leaves (List.prefix_refl _)).transfers
    rw [hmade.repository] at hrepository
    exact ⟨hrepository.imp And.right And.right, made, hpart,
      (congrArg Ledger.transfers hledger).trans htold⟩

/-- A rollback leaves less. -/
theorem Leaves.rolledBack (h : Leaves m plan m₁) (parts : List Part) :
    Leaves m plan (m₁.rolledBack (parts.map m.save)) := by
  obtain ⟨hrepository, made, hpart, htransfers⟩ := h
  constructor
  · rw [repository_rolledBack]
    split
    · -- a shelf is brought back, and a folder stays as it is
      rcases hrepository with hrepository | hrepository <;> rw [hrepository] <;>
        rcases m.repository with pools | d <;> simp [Repository.restore, Repository.store]
    · exact hrepository
  · rw [ledger_rolledBack]
    split
    · refine ⟨[], List.nil_prefix, ?_⟩
      simp [Ledger.restore, Ledger.save, htransfers]
    · exact ⟨made, hpart, htransfers⟩

theorem commit_leaves (plan : Plan) (m : Market) : Leaves m plan (commit plan m).2 := by
  have hleft := carryOut_leaves plan m
  rw [commit, Action.bind_apply, Action.look]
  dsimp only
  cases m.scope with
  | none => exact hleft
  | some parts =>
    simp only [transaction]
    rcases hdone : carryOut plan m with ⟨_ | _, m₁⟩ <;> rw [hdone] at hleft
    · exact hleft.rolledBack parts
    · exact hleft

/-- **What a request leaves** is nothing, or some of its plan. -/
theorem attempt_leaves (r : Request) (m : Market) :
    ((attempt r m).2.repository = m.repository ∧ (attempt r m).2.ledger = m.ledger) ∨
      ∃ plan progress, m.plan r Progress.start = (.ok plan, progress) ∧ Leaves m plan (attempt r m).2 := by
  simp only [attempt]
  rcases m.plan r Progress.start with ⟨f | plan, progress⟩
  · exact .inl ⟨rfl, rfl⟩
  · right
    refine ⟨plan, progress, rfl, ?_⟩
    have hleft := commit_leaves plan { m with journal := m.journal ++ progress.entries }
    dsimp only
    rcases hcommit : commit plan { m with journal := m.journal ++ progress.entries } with ⟨_ | _, m₁⟩ <;>
      rw [hcommit] at hleft <;> exact ⟨hleft.repository, hleft.transfers⟩

/-! ## Markets -/

/-- Every pool that can be loaded holds whole units.  That it goes by its number and is valid is no more than
what a repository promises: a shelf has a pool under its own number, and a folder checks both. -/
structure Whole (m : Market) : Prop where
  keyed : ∀ id p, m.repository.load id = .ok p → p.id = id
  valid : ∀ id p, m.repository.load id = .ok p → p.Valid
  whole : ∀ id p, m.repository.load id = .ok p → p.Whole

/-- A request asks for whole units of the pool that it is about. -/
def AsksWhole (m : Market) (r : Request) : Prop :=
  ∀ p, m.repository.load r.pool = .ok p → r.operation.AsksWhole p

/-- Whatever pool can be loaded later is kept from one of its number. -/
def KeepsPools (m m' : Market) : Prop :=
  ∀ id q, m'.repository.load id = .ok q → ∃ p, m.repository.load id = .ok p ∧ p.Kept q

theorem KeepsPools.trans (h : KeepsPools m m₁) (h' : KeepsPools m₁ m') : KeepsPools m m' := by
  intro id q hq
  obtain ⟨p₁, hp₁, hkept₁⟩ := h' id q hq
  obtain ⟨p, hp, hkept⟩ := h id p₁ hp₁
  exact ⟨p, hp, hkept.trans hkept₁⟩

namespace Whole

theorem keepsPools (h : m.Whole) (hsame : m'.repository = m.repository) : KeepsPools m m' := by
  intro id q hq
  rw [hsame] at hq
  exact ⟨q, hq, .refl (h.valid id q hq)⟩

theorem of_keepsPools (h : m.Whole) (hkept : KeepsPools m m') : m'.Whole := by
  refine ⟨fun id q hq => ?_, fun id q hq => ?_, fun id q hq => ?_⟩ <;>
    obtain ⟨p, hp, hpq⟩ := hkept id q hq
  · exact hpq.sameUnits.id.trans (h.keyed id p hp)
  · exact hpq.valid
  · exact hpq.whole (h.whole id p hp)

end Whole

/-- A request for whole units is one in a market whose pools were kept, too. -/
theorem AsksWhole.of_keepsPools (h : m.AsksWhole r) (hkept : KeepsPools m m') : m'.AsksWhole r := by
  intro q hq
  obtain ⟨p, hp, hpq⟩ := hkept _ q hq
  exact (h p hp).of_sameUnits hpq.sameUnits

/-- A transfer from or to the account of a pool, in whole units of it. -/
def MovesWhole (m : Market) (r : Request) (t : Transfer) : Prop :=
  ∃ p, m.repository.load r.pool = .ok p ∧ (t.sender = p.address ∨ t.recipient = p.address) ∧
    (p.InUnits t.coin ∨ p.InShareUnits t.coin)

/-- A transfer in whole units of a pool that was kept is one in whole units of the pool from before. -/
theorem MovesWhole.of_keepsPools {t : Transfer} (h : m'.MovesWhole r t) (hkept : KeepsPools m m') :
    m.MovesWhole r t := by
  obtain ⟨q, hq, haccount, hcoin⟩ := h
  obtain ⟨p, hp, hpq⟩ := hkept _ q hq
  rw [hpq.sameUnits.address] at haccount
  rw [hpq.sameUnits.inUnits_iff, hpq.sameUnits.inShareUnits_iff] at hcoin
  exact ⟨p, hp, haccount, hcoin⟩

/-- **What is left of a plan** that was asked for in whole units: pools that are kept, and transfers in
whole units. -/
theorem Leaves.whole (hleft : Leaves m plan m') {s s' : Progress} (h : m.Whole) (hasks : m.AsksWhole r)
    (hplan : m.plan r s = (.ok plan, s')) : KeepsPools m m' ∧
      ∃ made, m'.ledger.transfers = m.ledger.transfers ++ made ∧ ∀ t ∈ made, m.MovesWhole r t := by
  obtain ⟨p, hload⟩ := (planned_of_plan hplan).exists_load
  obtain ⟨hkept, hcoins⟩ := kept_of_plan hload (h.valid _ p hload) (hasks p hload) hplan
  obtain ⟨hrepository, made, hpart, htransfers⟩ := hleft
  refine ⟨?_, made, htransfers, fun t ht => ?_⟩
  · rcases hrepository with hsame | hstored
    · exact h.keepsPools hsame
    · intro id q hq
      rw [hstored] at hq
      rcases Repository.load_store hkept.valid hload hq with hold | ⟨rfl, hpq⟩
      · exact ⟨q, hold, .refl (h.valid id q hold)⟩
      · have hid : plan.pool.id = r.pool := hkept.sameUnits.id.trans (h.keyed _ p hload)
        exact ⟨p, hid ▸ hload, hkept.trans hpq⟩
  · refine ⟨p, hload, ?_⟩
    have ht := hpart.subset ht
    rw [Plan.transfers, List.mem_append, List.mem_map, List.mem_map, hkept.sameUnits.address] at ht
    rcases ht with ⟨c, hc, rfl⟩ | ⟨c, hc, rfl⟩
    · exact ⟨.inr rfl, hcoins c (List.mem_append_left _ hc)⟩
    · exact ⟨.inl rfl, hcoins c (List.mem_append_right _ hc)⟩

/-- The step lemma: whatever becomes of a request for whole units, pools are kept, and what was transferred
is whole units. -/
theorem whole_perform (h : m.Whole) (hasks : m.AsksWhole r) : KeepsPools m (perform r m).2 ∧
    ∃ made, (perform r m).2.ledger.transfers = m.ledger.transfers ++ made ∧
      ∀ t ∈ made, m.MovesWhole r t := by
  obtain ⟨hrepository, hledger⟩ := perform_parts r m
  rcases attempt_leaves r m with ⟨hsame, hidle⟩ | ⟨plan, progress, hplan, hleft⟩
  · refine ⟨h.keepsPools (hrepository.trans hsame), [], ?_, nofun⟩
    rw [hledger, hidle, List.append_nil]
  · have hleft' : Leaves m plan (perform r m).2 :=
      ⟨hrepository ▸ hleft.repository, hledger ▸ hleft.transfers⟩
    exact hleft'.whole h hasks hplan

/-- The run lemma. -/
theorem whole_after (h : m.Whole) {ops : List (Moment × Request)} (hasks : ∀ op ∈ ops, m.AsksWhole op.2) :
    KeepsPools m (m.after ops) ∧
      ∃ made, (m.after ops).ledger.transfers = m.ledger.transfers ++ made ∧
        ∀ t ∈ made, ∃ op ∈ ops, m.MovesWhole op.2 t := by
  induction ops generalizing m with
  | nil => exact ⟨h.keepsPools rfl, [], (List.append_nil _).symm, nofun⟩
  | cons op ops ih =>
    obtain ⟨now, r⟩ := op
    rw [List.forall_mem_cons] at hasks
    -- the clock is read by no repository
    have hasked : (m.asked now).Whole := ⟨h.keyed, h.valid, h.whole⟩
    obtain ⟨hkept, made, hmade, hwhole⟩ := whole_perform hasked hasks.1
    have hkept : KeepsPools m (perform r (m.asked now)).2 := hkept
    obtain ⟨hkept', made', hmade', hwhole'⟩ :=
      ih (h.of_keepsPools hkept) fun op hop => (hasks.2 op hop).of_keepsPools hkept
    refine ⟨hkept.trans hkept', made ++ made', ?_, fun t ht => ?_⟩
    · rw [← List.append_assoc]
      exact hmade'.trans (congrArg (· ++ made') hmade)
    · rcases List.mem_append.mp ht with ht | ht
      · exact ⟨(now, r), List.mem_cons_self, hwhole t ht⟩
      · obtain ⟨op, hop, hmoves⟩ := hwhole' t ht
        exact ⟨op, List.mem_cons_of_mem _ hop, hmoves.of_keepsPools hkept⟩

/-- **Whole units.**  Every operation that is committed on a valid pool answers whole units of it, whatever
it asks for.  A market whose pools hold whole units, asked for whole units in one operation after the other,
each granted or refused, keeps every pool in whole units of the same kinds; all transfers that were made
are in whole units; and so are all coins of every operation that was committed on the way. -/
theorem whole_units_kept :
    (∀ (m m' : Market) (r : Request) (plan : Plan) (p : Pool), m.repository.load r.pool = .ok p →
      p.Valid → attempt r m = (.ok plan, m') → r.operation.AnswersWhole p plan.receipt) ∧
    ∀ (m : Market) (ops : List (Moment × Request)), m.Whole → (∀ op ∈ ops, m.AsksWhole op.2) →
      (m.after ops).Whole ∧ KeepsPools m (m.after ops) ∧
      (∃ made, (m.after ops).ledger.transfers = m.ledger.transfers ++ made ∧
        ∀ t ∈ made, ∃ op ∈ ops, m.MovesWhole op.2 t) ∧
      ∀ before now r rest, ops = before ++ (now, r) :: rest →
        ∀ plan m', attempt r ((m.after before).asked now) = (.ok plan, m') →
          ∃ p, m.repository.load r.pool = .ok p ∧ r.operation.AnswersWhole p plan.receipt ∧
            ∀ c ∈ plan.event.paid ++ plan.event.received, p.InUnits c ∨ p.InShareUnits c := by
  refine ⟨fun m m' r plan p hload hp h => ?_, fun m ops h hasks => ?_⟩
  · obtain ⟨progress, hplan⟩ := plan_of_attempt h
    exact answersWhole_of_plan hload hp hplan
  · obtain ⟨hkept, hmade⟩ := whole_after h hasks
    refine ⟨h.of_keepsPools hkept, hkept, hmade, ?_⟩
    rintro before now r rest rfl plan m' hattempt
    obtain ⟨hkept, -⟩ := whole_after h fun op hop => hasks op (List.mem_append_left _ hop)
    obtain ⟨progress, hplan⟩ := plan_of_attempt hattempt
    obtain ⟨q, hq⟩ := (planned_of_plan hplan).exists_load
    obtain ⟨p, hp, hpq⟩ := hkept _ q hq
    have hasked := (hasks (now, r) (by simp) p hp).of_sameUnits hpq.sameUnits
    obtain ⟨-, hcoins⟩ := kept_of_plan hq hpq.valid hasked hplan
    refine ⟨p, hp, hpq.sameUnits.answersWhole_iff.mp (answersWhole_of_plan hq hpq.valid hplan),
      fun c hc => ?_⟩
    have hcoin := hcoins c hc
    rwa [hpq.sameUnits.inUnits_iff, hpq.sameUnits.inShareUnits_iff] at hcoin

/-- The raised input of `buyTen` is whole units, and the market stays whole when shares are redeemed
afterwards. -/
theorem buyTen_whole : evenPool.InUnits ⟨"a", ⟨11111113000000000000⟩⟩ ∧ buyersMarket.Whole ∧
    (buyersMarket.after [(default, buyTen), (default, leaving)]).Whole := by
  have hload : ∀ id p, buyersMarket.repository.load id = .ok p → id = 1 ∧ p = evenPool := by
    intro id p h
    have h : (keeping [evenPool] evenLedger none).repository.load id = .ok p := h
    exact load_even h
  have hwhole : evenPool.Whole := ⟨by decide, by decide⟩
  have hmarket : buyersMarket.Whole := by
    refine ⟨?_, ?_, ?_⟩ <;> intro id p h <;> obtain ⟨rfl, rfl⟩ := hload id p h
    · rfl
    · exact evenPool_valid
    · exact hwhole
  have hperform : (perform buyTen buyersMarket).1 = .ok (.amount ⟨11111113000000000000⟩) := by
    decide +kernel
  obtain ⟨plan, m', hattempt, hreceipt⟩ := perform_eq_ok (Prod.ext hperform rfl)
  have hcharged := whole_units_kept.1 buyersMarket m' buyTen plan evenPool rfl evenPool_valid hattempt
  rw [← hreceipt] at hcharged
  refine ⟨hcharged, hmarket, (whole_units_kept.2 buyersMarket _ hmarket ?_).1⟩
  intro op hop p h
  obtain ⟨-, rfl⟩ := hload _ p h
  rw [List.mem_pair] at hop
  rcases hop with rfl | rfl
  · exact fun _ => by decide
  · show evenPool.shareUnit ∣ (Fixed.ofInt 10).raw
    decide

end Market

end WeightedMarket
