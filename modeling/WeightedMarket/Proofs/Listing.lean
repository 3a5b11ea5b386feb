/-
  Folders list what their names are read as.

  A pool is stored and looked up under the shortest form of its number.  The list of pools, however, takes
  an integer in any handwriting: `01.json` and ` +1 .json` are read as the pool 1, too (`ReadsAs`).  So a
  folder with such a name lists a pool that it does not find, or lists one twice.  (An integer with more digits
than a text may have is read from no name, and has no name.)

  What a folder lists and finds is said here for every folder, whatever stands in it.  The listing is
  faithful (`Faithful`) exactly if each name that is read as an integer is the name of the pool.
-/
import WeightedMarket.Proofs.Loading

namespace WeightedMarket

open Decision

/-! ## Names in a folder -/

namespace Table

variable {κ ν : Type} [DecidableEq κ]

/-- A table has an entry for its keys only. -/
theorem isSome_get?_iff {t : Table κ ν} {k : κ} : (t.get? k).isSome ↔ k ∈ t.keys := by
  simp [get?, keys]

/-- No key is written twice. -/
theorem nodup_keys_put {t : Table κ ν} (h : t.keys.Nodup) (k : κ) (v : ν) : (t.put k v).keys.Nodup := by
  rw [keys_put]
  split
  · exact h
  · next hnew =>
    rw [← List.concat_eq_append]
    exact h.concat hnew

end Table

namespace Folder

/-- There is something under the name. -/
def Has (d : Folder) (name : String) : Prop := (d.file? name).isSome

/-- The names in the folder differ from each other. -/
def Distinct (d : Folder) : Prop := d.files.keys.Nodup

instance (d : Folder) : DecidablePred d.Has := fun name =>
  inferInstanceAs (Decidable ((d.file? name).isSome = true))

instance : DecidablePred Distinct := fun d => inferInstanceAs (Decidable d.files.keys.Nodup)

variable {d : Folder} {name : String} {i : Int}

theorem has_iff : d.Has name ↔ d.present = true ∧ name ∈ d.files.keys := by
  rw [Has, file?]
  split
  · next hpresent => rw [Table.isSome_get?_iff, and_iff_right hpresent]
  · next habsent => exact iff_of_false Bool.false_ne_true fun hname => habsent hname.1

/-! ## Deeds -/

/-- The action leaves names that differ if they differed before. -/
def KeepsDistinct {α : Type} (x : Action Folder α) : Prop := ∀ d, d.Distinct → (x d).2.Distinct

section

variable {α β : Type}

theorem keepsDistinct_bind {x : Action Folder α} {f : α → Action Folder β} (hx : KeepsDistinct x)
    (hf : ∀ a, KeepsDistinct (f a)) : KeepsDistinct (x >>= f) := by
  intro d hd
  have hfirst := hx d hd
  rw [Action.bind_apply]
  generalize x d = r at hfirst ⊢
  obtain ⟨_ | a, d'⟩ := r
  · exact hfirst
  · exact hf a d' hfirst

theorem keepsDistinct_look : KeepsDistinct Action.look := fun _ hd => hd

theorem keepsDistinct_decide (x : Except Failure α) : KeepsDistinct (Action.decide x) := fun _ hd => hd

theorem keepsDistinct_change_put (name : String) (file : File) :
    KeepsDistinct (Action.change fun d => { d with files := d.files.put name file }) := fun _ hd =>
  Table.nodup_keys_put hd name file

end

theorem keepsDistinct_put (name : String) (file : File) : KeepsDistinct (put name file) :=
  keepsDistinct_bind keepsDistinct_look fun _ => keepsDistinct_bind (keepsDistinct_decide _) fun _ =>
    keepsDistinct_bind (keepsDistinct_decide _) fun _ => keepsDistinct_change_put name file

/-- What can be done to a folder. -/
inductive Deed where
  | put (name : String) (file : File)
  | makeFolder (name : String)
  | remove
  | store (p : Pool)

def Deed.action : Deed → Action Folder Unit
  | put name file => Folder.put name file
  | makeFolder name => Folder.makeFolder name
  | remove => Folder.remove
  | store p => Folder.store p

/-- The folder after a series of deeds, whether they were refused or not. -/
def after (deeds : List Deed) (d : Folder) : Folder := deeds.foldl (fun d deed => (deed.action d).2) d

/-- Every deed keeps names distinct. -/
theorem keepsDistinct_action (deed : Deed) : KeepsDistinct deed.action := by
  cases deed with
  | put name file => exact keepsDistinct_put name file
  | makeFolder name =>
    exact keepsDistinct_bind keepsDistinct_look fun _ => keepsDistinct_bind (keepsDistinct_decide _) fun _ =>
      keepsDistinct_bind (keepsDistinct_decide _) fun _ => keepsDistinct_change_put name .folder
  | remove =>
    exact keepsDistinct_bind keepsDistinct_look fun _ => keepsDistinct_bind (keepsDistinct_decide _)
      fun _ _ _ => List.nodup_nil
  | store p =>
    exact keepsDistinct_bind (fun _ hd => hd) fun _ => keepsDistinct_bind (keepsDistinct_decide _) fun _ =>
      keepsDistinct_bind (keepsDistinct_decide _) fun _ => keepsDistinct_put _ _

/-- **Whatever is done** to a folder, its names differ. -/
theorem distinct_after (deeds : List Deed) (h : d.Distinct) : (d.after deeds).Distinct := by
  induction deeds generalizing d with
  | nil => exact h
  | cons deed deeds ih => exact ih (keepsDistinct_action deed d h)

/-! ## Names of pools -/

/-- A name is read as the number of a pool if an integer in somebody's handwriting, not too long, stands
before the ending. -/
def ReadsAs (name : String) (i : Int) : Prop :=
  ∃ (stem : String) (w : Text.Handwritten), name = stem ++ ".json" ∧ w.Spells stem ∧
    w.digits.length ≤ Text.maxIntegerDigits ∧ w.value = i

/-- A name stands for a pool exactly if it can be read as the number of it. -/
theorem poolOf?_eq_some_iff : poolOf? name = some i ↔ ReadsAs name i := by
  constructor
  · intro h
    obtain ⟨stem, rfl⟩ := exists_stem_of_poolOf? h
    obtain ⟨w, hspells, hlength, hvalue⟩ :=
      Text.readInteger_eq_ok_iff.mp (poolOf?_append_eq_some_iff.mp h)
    exact ⟨stem, w, rfl, hspells, hlength, hvalue⟩
  · rintro ⟨stem, w, rfl, hspells, hlength, hvalue⟩
    rw [poolOf?_append_eq_some_iff]
    exact Text.readInteger_eq_ok_iff.mpr ⟨w, hspells, hlength, hvalue⟩

/-- What a name is read as can be written. -/
theorem ReadsAs.isWritable (h : ReadsAs name i) : Text.IsWritable i := by
  obtain ⟨_, w, _, _, hlength, rfl⟩ := h
  exact w.isWritable_value hlength

/-- The name of a pool's file is read as its number. -/
theorem readsAs_nameOf (h : Text.IsWritable i) : ReadsAs (nameOf i) i :=
  poolOf?_eq_some_iff.mp (poolOf?_nameOf h)

/-! ## What is listed -/

/-- **What is listed**: the numbers that the names in the folder are read as. -/
theorem mem_poolIds : i ∈ d.poolIds ↔ ∃ name, d.Has name ∧ ReadsAs name i := by
  simp only [has_iff, ← poolOf?_eq_some_iff]
  by_cases hpresent : d.present = true
  · rw [(poolIds_perm hpresent).mem_iff, List.mem_filterMap]
    simp only [hpresent, true_and]
  · rw [poolIds, if_neg hpresent]
    refine iff_of_false List.not_mem_nil ?_
    rintro ⟨_, hname, -⟩
    exact hpresent hname.1

/-- The list of pools is the numbers that the names stand for, put in order. -/
theorem poolIds_eq {ids : List Int} (hpresent : d.present = true)
    (hread : (d.files.keys.filterMap poolOf?).Perm ids) (hsorted : ids.Pairwise (· ≤ ·)) : d.poolIds = ids :=
  ((poolIds_perm hpresent).trans hread).eq_of_pairwise (fun _ _ _ _ => Int.le_antisymm)
    d.pairwise_le_poolIds hsorted

/-- No number is listed twice exactly if no two names are read as the same. -/
theorem nodup_poolIds_iff (h : d.Distinct) : d.poolIds.Nodup ↔
    ∀ name name' i, d.Has name → d.Has name' → ReadsAs name i → ReadsAs name' i → name = name' := by
  simp only [has_iff, ← poolOf?_eq_some_iff]
  by_cases hpresent : d.present = true
  · rw [(poolIds_perm hpresent).nodup_iff, List.Nodup, List.pairwise_filterMap]
    have hsymm : Std.Symm fun name name' => ∀ b, poolOf? name = some b → ∀ b', poolOf? name' = some b' →
        b ≠ b' := ⟨fun _ _ h b hb b' hb' => (h b' hb' b hb).symm⟩
    constructor
    · intro hpairs name name' i hname hname' hi hi'
      by_contra hne
      exact hpairs.forall hname.2 hname'.2 hne i hi i hi' rfl
    · intro hone
      refine h.imp_of_mem fun {name name'} hname hname' hne i hi j hj hij => hne ?_
      subst hij
      exact hone name name' i ⟨hpresent, hname⟩ ⟨hpresent, hname'⟩ hi hj
  · rw [poolIds, if_neg hpresent]
    exact iff_of_true List.nodup_nil fun _ _ _ hname => absurd hname.1 hpresent

/-! ## What is found -/

/-- A fault of a document does not make the pool missing. -/
theorem kind_ne_of_fault {document : Document} {f : Failure} (h : document.Fault f) :
    f.kind ≠ .poolNotFound := by
  cases h with
  | clocks => decide
  | amount => decide

/-- What is there is never said to be missing. -/
theorem kind_ne_of_has (h : d.Has (nameOf i)) {f : Failure} (hload : d.load i = .error f) :
    f.kind ≠ .poolNotFound := by
  obtain ⟨file, hfile⟩ := Option.isSome_iff_exists.mp h
  by_cases hi : Text.IsWritable i
  · cases file with
    | text content =>
      rcases refusesOnly_load hfile hi f hload with hkind | hkind | ⟨_, _, _, hfault⟩
      · rw [hkind]
        decide
      · rw [hkind]
        decide
      · exact kind_ne_of_fault hfault
    | garbled fault =>
      simp only [load, requireWritable_eq_ok.mpr hi, ok_bind, hfile, read] at hload
      obtain rfl := Except.error.inj hload
      intro hkind
      cases hkind
    | folder =>
      simp only [load, requireWritable_eq_ok.mpr hi, ok_bind, hfile, read] at hload
      obtain rfl := Except.error.inj hload
      intro hkind
      cases hkind
  · rw [load_eq_error hi] at hload
    obtain rfl := Except.error.inj hload
    decide

/-- **What is found**: a pool is said to be missing exactly if there is nothing under its name. -/
theorem load_not_found_iff : (∃ f, d.load i = .error f ∧ f.kind = .poolNotFound) ↔
    Text.IsWritable i ∧ ¬ d.Has (nameOf i) := by
  constructor
  · rintro ⟨f, hload, hkind⟩
    refine ⟨?_, fun h => kind_ne_of_has h hload hkind⟩
    by_contra hi
    rw [load_eq_error hi] at hload
    obtain rfl := Except.error.inj hload
    cases hkind
  · rintro ⟨hi, h⟩
    have hnone : d.file? (nameOf i) = none := Option.not_isSome_iff_eq_none.mp h
    refine ⟨.noPoolIn i d.path, ?_, rfl⟩
    rw [load, requireWritable_eq_ok.mpr hi, ok_bind, hnone]
    exact congrArg Except.error (settled_of_isWritable rfl rfl hi)

/-! ## Faithful listings -/

/-- The listing is faithful: it names each pool once, in the order of the numbers, it names those that have
a file, and none of those that it names is missing. -/
structure Faithful (d : Folder) : Prop where
  strict : d.poolIds.Pairwise (· < ·)
  mem_iff : ∀ i, i ∈ d.poolIds ↔ Text.IsWritable i ∧ d.Has (nameOf i)
  found : ∀ i ∈ d.poolIds, ∀ f, d.load i = .error f → f.kind ≠ .poolNotFound

/-- A listing is faithful exactly if each name that is read as a number is the name of the pool. -/
theorem faithful_iff (h : d.Distinct) :
    d.Faithful ↔ ∀ name i, d.Has name → ReadsAs name i → name = nameOf i := by
  constructor
  · rintro ⟨hstrict, hmem, -⟩ name i hname hi
    obtain ⟨hwritable, hown⟩ := (hmem i).mp (mem_poolIds.mpr ⟨name, hname, hi⟩)
    have hone := (nodup_poolIds_iff h).mp (d.pairwise_lt_poolIds_iff.mp hstrict)
    exact hone name (nameOf i) i hname hown hi (readsAs_nameOf hwritable)
  · intro hown
    have hmem (i : Int) : i ∈ d.poolIds ↔ Text.IsWritable i ∧ d.Has (nameOf i) := by
      rw [mem_poolIds]
      refine ⟨?_, fun ⟨hwritable, hname⟩ => ⟨nameOf i, hname, readsAs_nameOf hwritable⟩⟩
      rintro ⟨name, hname, hi⟩
      refine ⟨hi.isWritable, ?_⟩
      rwa [← hown name i hname hi]
    refine ⟨d.pairwise_lt_poolIds_iff.mpr ((nodup_poolIds_iff h).mpr ?_), hmem, fun i hi f hload =>
      kind_ne_of_has ((hmem i).mp hi).2 hload⟩
    intro name name' i hname hname' hi hi'
    rw [hown name i hname hi, hown name' i hname' hi']

/-- **What a folder lists and finds**, whatever stands in it.  The list of pools is in the order of the
numbers; a number is in it exactly if some name in the folder is read as the number, in whatever
handwriting, and twice only if two names are read as the same.  A pool is said to be missing exactly if
there is nothing under its own name.  So the listing is faithful, in that it is strictly ordered, names
exactly the pools that have a file and none that is missing, if and only if each name in the folder that is
read as a number is the name of that pool. -/
theorem listing_spec (h : d.Distinct) :
    d.poolIds.Pairwise (· ≤ ·) ∧
    (∀ i, i ∈ d.poolIds ↔ ∃ name, d.Has name ∧ ReadsAs name i) ∧
    (d.poolIds.Pairwise (· < ·) ↔ ∀ name name' i, d.Has name → d.Has name' →
      ReadsAs name i → ReadsAs name' i → name = name') ∧
    (∀ i, (∃ f, d.load i = .error f ∧ f.kind = .poolNotFound) ↔
      Text.IsWritable i ∧ ¬ d.Has (nameOf i)) ∧
    (d.Faithful ↔ ∀ name i, d.Has name → ReadsAs name i → name = nameOf i) :=
  ⟨d.pairwise_le_poolIds, fun _ => mem_poolIds, d.pairwise_lt_poolIds_iff.trans (nodup_poolIds_iff h),
    fun _ => load_not_found_iff, faithful_iff h⟩

/-- A folder with the documents of two pools, and notes. -/
def notedFolder : Folder :=
  ⟨"pools", true, ⟨[("3.json", .text "\x7b\x7d"), ("notes.json", .text "\x7b\x7d"),
    ("1.json", .text "\x7b\x7d")]⟩⟩

/-- The notes are not listed; the two pools are, in their order, and are found. -/
theorem notedFolder_listed :
    notedFolder.Distinct ∧ notedFolder.poolIds = [1, 3] ∧ notedFolder.Faithful := by
  have hdistinct : notedFolder.Distinct := by decide
  have hown : ∀ name ∈ notedFolder.files.keys, ∀ i ∈ poolOf? name, name = nameOf i := by decide
  obtain ⟨-, -, -, -, hfaithful⟩ := listing_spec hdistinct
  refine ⟨hdistinct, poolIds_eq rfl (by decide) (by decide), hfaithful.mpr fun name i hname hi => ?_⟩
  exact hown name (has_iff.mp hname).2 i (poolOf?_eq_some_iff.mpr hi)

/-- A folder whose only document has a zero in front of its number. -/
def paddedFolder : Folder := ⟨"pools", true, ⟨[("01.json", .text "\x7b\x7d")]⟩⟩

/-- The same folder with a document of pool 1 in it. -/
def doubledFolder : Folder :=
  ⟨"pools", true, ⟨[("1.json", .text "\x7b\x7d"), ("01.json", .text "\x7b\x7d")]⟩⟩

/-- Pool 1 is listed but is not found, having no file; next to a file of its own it is listed twice. -/
theorem padded_listed_not_found :
    paddedFolder.Distinct ∧ paddedFolder.poolIds = [1] ∧ ¬ paddedFolder.Has (nameOf 1) ∧
    paddedFolder.load 1 = .error (.noPoolIn 1 "pools") ∧ ¬ paddedFolder.Faithful ∧
    doubledFolder.Distinct ∧ doubledFolder.poolIds = [1, 1] ∧ ¬ doubledFolder.Faithful := by
  have hpadded : paddedFolder.poolIds = [1] := poolIds_eq rfl (by decide) (by decide)
  have hdoubled : doubledFolder.poolIds = [1, 1] := poolIds_eq rfl (by decide) (by decide)
  have hmissing : ¬ paddedFolder.Has (nameOf 1) := by decide
  refine ⟨by decide, hpadded, hmissing, rfl, fun h => ?_, by decide, hdoubled, fun h => ?_⟩
  · exact hmissing ((h.mem_iff 1).mp (hpadded ▸ List.mem_singleton_self 1)).2
  · have hstrict := h.strict
    rw [hdoubled] at hstrict
    exact absurd hstrict (by decide)

end Folder

end WeightedMarket
