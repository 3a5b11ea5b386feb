/-
  Why a document is not loaded.

  A folder answers with the pool of a document, or refuses it with a rule of pools or of fees.  A document
  with a fault (`Document.Fault`) it refuses too, but with whatever the number or the clock that is at fault
  was refused with, which is no refusal of the engine.  The command passes such a refusal on; it shows every
  pool that was loaded, and of what it computes from one only the size of an answer can be at fault.
-/
import WeightedMarket.Command
import WeightedMarket.Proofs.Document.Faults
import WeightedMarket.Proofs.Folder
import WeightedMarket.Proofs.Refusal

namespace WeightedMarket

open Decision

/-- The text is a document of a pool's number, with a fault. -/
def Document.Faulty (content : String) (pool : Int) (f : Failure) : Prop :=
  ∃ document, ofText content = .ok document ∧ document.id = pool ∧ document.Fault f

/-! ## Questions about a pool -/

namespace Command

variable {p : Pool}

/-- Each asset of a valid pool is shown, as no weight is divided by zero. -/
theorem assetLine_eq_ok {a : Asset} (hp : p.Valid) (ha : a ∈ p.assets)
    (hprints : a.balance.printable = true ∧ a.weight.printable = true) :
    ∃ line, assetLine p a = .ok line := by
  have hfound := hp.asset_eq_ok ha
  have hpart : p.normalizedWeight a.denom = .ok (p.part a) := by
    rw [Pool.normalizedWeight, hfound]
    exact Fixed.divide_eq_ok (hp.totalWeight_pos ha).ne'
  obtain ⟨hnonneg, hlt, -⟩ := hp.part_bounds ha
  have hproportion : (p.part a).IsFee := ⟨hnonneg, hlt⟩
  rw [assetLine, hpart, ok_bind, Fixed.written_of_printable hprints.1, ok_bind,
    Fixed.written_of_printable hprints.2, ok_bind, Fixed.written_eq_ok hproportion.short]
  exact ⟨_, rfl⟩

/-- A pool whose number and amounts can be written can be shown. -/
theorem answer_show (hp : p.Valid) (hwritable : Text.IsWritable p.id)
    (hshares : p.totalShares.printable = true)
    (hassets : ∀ a ∈ p.assets, a.balance.printable = true ∧ a.weight.printable = true) :
    ∃ text, answer p .show = .ok text := by
  have hlines : ∀ a ∈ p.assets, ∃ line, assetLine p a = .ok line := fun a ha =>
    assetLine_eq_ok hp ha (hassets a ha)
  choose! line hline using hlines
  rw [answer, describe, requireWritable_eq_ok.mpr hwritable, ok_bind,
    Fixed.written_of_printable hshares, Fixed.written_eq_ok hp.swapFee.short,
    Fixed.written_eq_ok hp.exitFee.short, mapM_of_ok hline]
  exact ⟨_, rfl⟩

/-- Whatever is computed from a valid pool that can be named, the engine refuses it, or an amount is too
large to be written. -/
theorem refusesOnly_answer (hp : p.Valid) (hwritable : Text.IsWritable p.id) {query : Query}
    (hquery : query ≠ .show) :
    RefusesOnly (fun f => f.isEngine = true ∨ f = .overflow) (answer p query) := by
  have hreported (f : Failure) (hf : f.Reported [p.id]) : f.isEngine = true ∨ f = .overflow := by
    cases hf with
    | raised hcause => exact .inl (Bool.and_eq_true_iff.mp hcause.kind).1
    | unwritten => exact .inr rfl
    | unnamed hcause hmem hlong =>
      obtain rfl := List.mem_singleton.mp (hcause.numbers hmem)
      exact absurd hwritable hlong
  have hwritten (a : Fixed) :
      RefusesOnly (fun f => f.isEngine = true ∨ f = .overflow) a.written := by
    unfold Fixed.written
    split
    · exact refusesOnly_ok _
    · exact refusesOnly_refuse (.inr rfl)
  cases query with
  | «show» => exact absurd rfl hquery
  | quoteIn coin denomOut =>
    refine refusesOnly_bind ((Pool.reports_quoteSale hp coin denomOut _).mono hreported) fun c _ => ?_
    exact refusesOnly_bind (hwritten c.amount) fun _ _ => refusesOnly_pure _
  | quoteOut coin denomIn =>
    refine refusesOnly_bind ((Pool.reports_quotePurchase hp coin denomIn _).mono hreported)
      fun c _ => ?_
    exact refusesOnly_bind (hwritten c.amount) fun _ _ => refusesOnly_pure _
  | spotPrice quote base withFee =>
    cases withFee with
    | true =>
      exact refusesOnly_bind ((Pool.reports_spotPriceWithFee hp quote base).mono hreported)
        fun price _ => hwritten price
    | false =>
      exact refusesOnly_bind ((Pool.reports_spotPrice hp quote base).mono hreported)
        fun price _ => hwritten price

/-- A refusal to load the pool that is not the engine's goes through. -/
theorem run_eq_error {job : Job} {d : Folder} {f : Failure} (h : d.load job.pool = .error f)
    (hf : f.isEngine = false) : job.run d = .error f := by
  have hanswer : (do answer (← d.load job.pool) job.query) = .error f := by
    rw [h]
    rfl
  rw [Job.run, hanswer]
  simp only [hf, Bool.false_eq_true, if_false]

end Command

namespace Folder

variable {d : Folder} {pool : Int} {content : String}

/-- A file with text is read as a document, which must be of the pool's number. -/
theorem load_eq_of_text (hfile : d.file? (nameOf pool) = some (.text content))
    (hpool : Text.IsWritable pool) : d.load pool = match Document.ofText content with
      | .error problems => .error (.badDocument pool (d.pathOf (nameOf pool)) problems)
      | .ok document =>
        if document.id = pool then document.toPool
        else .error (.wrongDocument (d.pathOf (nameOf pool)) document.id pool) := by
  have hread : d.read (nameOf pool) = .ok content := by
    rw [read, hfile]
  simp only [load, requireWritable_eq_ok.mpr hpool, hfile, hread, ok_bind]
  cases hdocument : Document.ofText content with
  | error problems => rfl
  | ok document =>
    by_cases hid : document.id = pool
    · simp only [hid, decide_true, require, if_true]
      rfl
    · -- the number that the document holds was read, so it can be written
      have hheld := (Document.wellFormed_of_ofText hdocument).writable
      have hsettled : (Failure.wrongDocument (d.pathOf (nameOf pool)) document.id pool).settled =
          .wrongDocument (d.pathOf (nameOf pool)) document.id pool := by
        simp [Failure.settled, Failure.shown, Failure.numbers, hheld, hpool]
      simp only [hid, decide_false, require, Bool.false_eq_true, if_false, refuse, hsettled]
      rfl

/-- A pool that was loaded was made of the document. -/
theorem made_of_load (hfile : d.file? (nameOf pool) = some (.text content)) {p : Pool}
    (h : d.load pool = .ok p) : ∃ document, Document.ofText content = .ok document ∧
      document.id = pool ∧ document.Made p := by
  rw [load_eq_of_text hfile (isWritable_of_load h)] at h
  split at h
  · cases h
  · next document hread =>
    split at h
    · next hid =>
      exact ⟨document, hread, hid, Document.made_of_toPool (Document.wellFormed_of_ofText hread) h⟩
    · cases h

/-- A document that was not loaded breaks a rule, or has a fault. -/
theorem refusesOnly_load (hfile : d.file? (nameOf pool) = some (.text content))
    (hpool : Text.IsWritable pool) :
    RefusesOnly (fun f => f.kind = .invalidPool ∨ f.kind = .invalidFee ∨
      Document.Faulty content pool f) (d.load pool) := by
  intro f h
  rw [load_eq_of_text hfile hpool] at h
  split at h
  · cases h
    exact .inl rfl
  · next document hread =>
    split at h
    · next hid =>
      have hrefusal := Document.refusesOnly_toPool (Document.wellFormed_of_ofText hread) f h
      exact hrefusal.imp_right (.imp_right fun hfault => ⟨document, hread, hid, hfault⟩)
    · cases h
      exact .inl rfl

/-- **Loading a document.**  Whatever text stands under the name of a pool, the folder answers with a valid
pool of that number, or refuses it with a rule of pools or of fees, or the text is a document with a fault
and that is what it is refused with; a document with a fault is never answered with a pool.  A command
about the pool ends with an answer or a message unless there is a fault, or the answer is a number too
large to be written; and it shows every pool that was loaded.  (Of a number that is too long to be written
there is no name to look under.) -/
theorem load_of_text (hfile : d.file? (nameOf pool) = some (.text content)) :
    (∀ p, d.load pool = .ok p → p.id = pool ∧ p.Valid ∧ ∀ f, ¬ Document.Faulty content pool f) ∧
    (∀ f, d.load pool = .error f → f.kind = .invalidPool ∨ f.kind = .invalidFee ∨
      Document.Faulty content pool f ∨ ¬ Text.IsWritable pool ∧ f = .longInteger) ∧
    ∀ job : Command.Job, job.pool = pool → ∀ f, job.run d = .error f →
      Document.Faulty content pool f ∨ job.query ≠ .show ∧ f = .overflow ∨
        ¬ Text.IsWritable pool ∧ f = .longInteger := by
  have hrefuses (f : Failure) (h : d.load pool = .error f) : f.kind = .invalidPool ∨
      f.kind = .invalidFee ∨ Document.Faulty content pool f ∨ ¬ Text.IsWritable pool ∧ f = .longInteger := by
    by_cases hpool : Text.IsWritable pool
    · exact (refusesOnly_load hfile hpool f h).imp_right (.imp_right .inl)
    · rw [load_eq_error hpool] at h
      exact .inr (.inr (.inr ⟨hpool, (Except.error.inj h).symm⟩))
  refine ⟨fun p hload => ?loaded, hrefuses, fun job hjob f hrun => ?command⟩
  case loaded =>
    obtain ⟨document, hread, rfl, hmade⟩ := made_of_load hfile hload
    refine ⟨hmade.id, hmade.valid, ?_⟩
    rintro f ⟨other, hother, -, hfault⟩
    rw [hread] at hother
    obtain rfl := Except.ok.inj hother
    exact hmade.not_fault f hfault
  case command =>
    obtain rfl := hjob
    unfold Command.Job.run at hrun
    split at hrun
    · cases hrun
    · next g hanswer =>
      split at hrun
      · cases hrun
      · next hengine =>
        obtain rfl := Except.error.inj hrun
        cases hload : d.load job.pool with
        | error e =>
          rw [hload] at hanswer
          obtain rfl := Except.error.inj hanswer
          rcases hrefuses e hload with hkind | hkind | hfaulty | hlong
          · exact absurd (by rw [Failure.isEngine, hkind]; rfl) hengine
          · exact absurd (by rw [Failure.isEngine, hkind]; rfl) hengine
          · exact .inl hfaulty
          · exact .inr (.inr hlong)
        | ok p =>
          rw [hload, ok_bind] at hanswer
          obtain ⟨document, -, hid, hmade⟩ := made_of_load hfile hload
          have hwritable : Text.IsWritable p.id := by
            rw [hmade.id, hid]
            exact isWritable_of_load hload
          by_cases hquery : job.query = .show
          · obtain ⟨text, htext⟩ :=
              Command.answer_show hmade.valid hwritable hmade.totalShares hmade.assets
            rw [hquery, htext] at hanswer
            cases hanswer
          · rcases Command.refusesOnly_answer hmade.valid hwritable hquery g hanswer with hg | rfl
            · exact absurd hg hengine
            · exact .inr (.inl ⟨hquery, rfl⟩)

/-- A document that reads well, and whose first reserve is a numeral beyond the decimal context. -/
def boundless : Document where
  id := 1
  assets := [⟨"a", "1e999999", "1", 6⟩, ⟨"b", "1", "1", 6⟩]
  totalShares := "1"
  swapFee := "0"
  exitFee := "0"
  shareDecimals := 18
  window := none

/-- The folder with the text of a document. -/
def holding (document : Document) : Folder :=
  ⟨"pools", true, Table.empty.put (nameOf document.id) (.text document.text)⟩

theorem ofText_boundless : Document.ofText boundless.text = .ok boundless := by
  refine Document.ofText_text ⟨by decide, by decide, ?_, by decide, ?_, ?_, ?_, by decide, nofun⟩
  · simp only [boundless, List.forall_mem_cons]
    exact ⟨⟨by decide, ⟨_, rfl⟩, ⟨_, rfl⟩, by decide⟩, ⟨by decide, ⟨_, rfl⟩, ⟨_, rfl⟩, by decide⟩, nofun⟩
  · exact ⟨_, rfl⟩
  · exact ⟨_, rfl⟩
  · exact ⟨_, rfl⟩

theorem file?_boundless : (holding boundless).file? (nameOf 1) = some (.text boundless.text) := rfl

theorem load_boundless : (holding boundless).load 1 = .error .overflow := by
  rw [load_eq_of_text file?_boundless (by decide), ofText_boundless]
  rfl

/-- The refusal of `boundless` is for its fault. -/
theorem boundless_faulty : (holding boundless).file? (nameOf 1) = some (.text boundless.text) ∧
    (holding boundless).load 1 = .error .overflow ∧ Document.Faulty boundless.text 1 .overflow := by
  refine ⟨file?_boundless, load_boundless, ?_⟩
  rcases (load_of_text file?_boundless).2.1 _ load_boundless with hkind | hkind | hfaulty | ⟨hlong, -⟩
  · cases hkind
  · cases hkind
  · exact hfaulty
  · exact absurd (by decide) hlong

/-- A text under the name of a pool that is neither loaded nor refused by the engine, and a command that
ends with neither an answer nor a message. -/
theorem boundless_unreported : ∃ (d : Folder) (content : String) (f : Failure),
    d.file? (nameOf 1) = some (.text content) ∧ d.load 1 = .error f ∧ f.isEngine = false ∧
      (⟨"pools", 1, .show⟩ : Command.Job).run d = .error f := by
  exact ⟨holding boundless, boundless.text, .overflow, file?_boundless, load_boundless, rfl,
    Command.run_eq_error load_boundless rfl⟩

end Folder

end WeightedMarket
