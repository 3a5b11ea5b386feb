/-
  What can be wrong with a document that was read.

  Reading checks that an amount is a finite numeral or an integer, and that the number of the pool can be
  written (`WellFormed`); how large an amount is it does not ask.  A window is read bound by bound, so its
  bounds may be of clocks that cannot be compared.  Either shows only when the document is to become a pool:
  besides the rules of pools and of fees, a document can be refused for one of its faults (`Fault`), and for
  nothing else (`refusesOnly_toPool`).  A document with a fault never becomes a pool (`Made.not_fault`).
-/
import WeightedMarket.Proofs.Document.RoundTrip
import WeightedMarket.Proofs.Staging

namespace WeightedMarket

open Decision

/-! ## Amounts -/

/-- The text is a numeral whose number the decimal context cannot hold. -/
def IsTooLarge (t : String) : Prop :=
  ∃ v, Numeral.ofText t = .ok (.finite v) ∧ v.coefficient ≠ 0 ∧ Decimal.maxAdjusted < v.adjusted + 18

namespace Fixed

/-- A numeral is refused exactly if its number is too large. -/
theorem ofDecimal_eq_error {v : Decimal} {f : Failure} : ofDecimal v = .error f ↔
    f = .overflow ∧ v.coefficient ≠ 0 ∧ Decimal.maxAdjusted < v.adjusted + 18 := by
  have hscaled : ({ v with exponent := v.exponent + 18 } : Decimal).adjusted = v.adjusted + 18 := by
    simp only [Decimal.adjusted]
    omega
  simp only [ofDecimal, Decimal.overflows, hscaled, Decimal.maxAdjusted, Bool.and_eq_true, bne_iff_ne,
    decide_eq_true_eq]
  split
  · next hzero =>
    -- a zero, and a value below the last place, are numbers
    constructor
    · intro h
      cases h
    · rintro ⟨-, hne, hlarge⟩
      rcases hzero with hzero | hsmall
      · exact absurd hzero hne
      · omega
  · split
    · next hlarge =>
      constructor
      · intro h
        obtain rfl := Except.error.inj h
        exact ⟨rfl, hlarge⟩
      · rintro ⟨rfl, -⟩
        rfl
    · next hsmall =>
      constructor
      · intro h
        cases h
      · rintro ⟨-, hlarge⟩
        exact absurd hlarge hsmall

/-- **An amount** of a document denotes no number exactly if it is too large. -/
theorem ofText_eq_error {t : String} (ht : IsAmount t) {f : Failure} :
    ofText t = .error f ↔ f = .overflow ∧ IsTooLarge t := by
  obtain ⟨v, hv⟩ := ht
  have hread : ofText t = ofDecimal v := by
    rw [ofText, hv]
    rfl
  rw [hread, ofDecimal_eq_error]
  refine and_congr_right fun _ => ⟨fun hlarge => ⟨v, hv, hlarge⟩, ?_⟩
  rintro ⟨v', hv', hlarge⟩
  rw [hv] at hv'
  cases hv'
  exact hlarge

end Fixed

/-- An integer that can be written is a numeral within reach. -/
theorem isAmount_toString {n : Int} (h : Text.IsWritable n) : IsAmount (toString n) := by
  have hdigits : digitCount n.natAbs ≤ 4300 := h
  have hreach : Numeral.inReach ⟨decide (n < 0), n.natAbs, 0⟩ = true := by
    rw [Numeral.inReach, Bool.and_eq_true, decide_eq_true_iff, decide_eq_true_iff]
    simp only [Numeral.minExponent, Numeral.maxAdjusted, Decimal.adjusted]
    omega
  exact ⟨_, (Numeral.ofText_toString n).trans (if_pos hreach)⟩

/-! ## The size of amounts -/

/-- A value within the context has no more digits before the point than the context allows. -/
theorem Decimal.exists_natAbs_toInt_cut_lt (d : Decimal) (h : d.adjusted ≤ maxAdjusted) :
    ∃ k ≤ 1000000, d.cut.toInt.natAbs < 10 ^ k := by
  obtain ⟨negative, c, e⟩ := d
  simp only [adjusted, maxAdjusted] at h
  set excess := digitCount c - precision with hexcess
  have hpos := digitCount_pos c
  have hleading : c / 10 ^ excess < 10 ^ (digitCount c - excess) := by
    refine Nat.div_lt_of_lt_mul ?_
    rw [← Nat.pow_add, Nat.add_sub_cancel' (Nat.sub_le _ _)]
    exact (digitCount_le_iff hpos).mp (Nat.le_refl _)
  have hprecision : precision = 120 := rfl
  have hsign (m : Nat) : (if negative = true then -(m : Int) else m).natAbs = m := by
    split
    · rw [Int.natAbs_neg, Int.natAbs_natCast]
    · exact Int.natAbs_natCast m
  simp only [cut, toInt, hsign, Nat.pow_eq, ← hexcess]
  split
  · -- the zeros that are filled in
    refine ⟨digitCount c - excess + (e + excess).toNat, by omega, ?_⟩
    rw [Nat.pow_add]
    exact Nat.mul_lt_mul_of_pos_right hleading (Nat.pow_pos (by decide))
  · -- only decimals are dropped
    exact ⟨digitCount c - excess, by omega, Nat.lt_of_le_of_lt (Nat.div_le_self _ _) hleading⟩

namespace Fixed

/-- An amount that was read can be written. -/
theorem printable_of_ofText {t : String} {a : Fixed} (h : ofText t = .ok a) : a.printable = true := by
  have hbound : ∃ k ≤ 1000000, a.raw.natAbs < 10 ^ k := by
    unfold ofText ofNumeral ofDecimal at h
    split at h
    · cases h
    split at h
    · dsimp only at h
      split at h
      · obtain rfl := Except.ok.inj h
        exact ⟨0, Nat.zero_le _, Nat.one_pos⟩
      · next hne =>
        split at h
        · cases h
        · next hsmall =>
          obtain rfl := Except.ok.inj h
          refine Decimal.exists_natAbs_toInt_cut_lt _ ?_
          rw [not_or] at hne
          rw [Decimal.overflows, Bool.and_eq_true, bne_iff_ne, decide_eq_true_iff, not_and] at hsmall
          exact Int.not_lt.mp (hsmall hne.1)
    · cases h
  obtain ⟨k, hk, hlt⟩ := hbound
  exact printable_of_lt (Nat.le_trans hk (by decide)) hlt

end Fixed

/-! ## Documents that were read -/

/-- The texts of the amounts of an asset's description. -/
def AssetDocument.amounts (d : AssetDocument) : List String := [d.balance, d.weight]

namespace Document

/-- The texts of the amounts of a document. -/
def amounts (d : Document) : List String :=
  d.assets.flatMap AssetDocument.amounts ++ [d.totalShares, d.swapFee, d.exitFee]

/-- What reading has checked: every amount is a finite numeral, and the number of the pool can be
written. -/
structure WellFormed (d : Document) : Prop where
  amounts : ∀ t ∈ d.amounts, IsAmount t
  writable : Text.IsWritable d.id

namespace Reading

variable {α β : Type}

/-- A reading that is mapped answers the image of an answer. -/
theorem map_eq_ok {f : α → β} {x : Reading α} {b : β} :
    x.map f = .ok b ↔ ∃ a, x = .ok a ∧ f a = b := by
  cases x <;> simp [Except.map]

/-- Two readings answer together if each of them does. -/
theorem both_eq_ok {x : Reading α} {y : Reading β} {a : α} {b : β} :
    both x y = .ok (a, b) ↔ x = .ok a ∧ y = .ok b := by
  cases x <;> cases y <;> simp [both]

/-- Seen from further out, a value is the same. -/
theorem under_eq_ok {step : PathStep} {x : Reading α} {a : α} : under step x = .ok a ↔ x = .ok a := by
  cases x <;> simp [under, Except.mapError]

/-- A value that passes a test is the value that was read, and is not a bad one. -/
theorem tested_eq_ok {x : Reading α} {bad : α → Prop} [DecidablePred bad] {kind : ProblemKind} {b : α}
    (h : (do let a ← x; if bad a then problem kind else return a) = .ok b) : x = .ok b ∧ ¬ bad b := by
  cases x with
  | error problems => cases h
  | ok a =>
    have h : (if bad a then problem kind else .ok a : Reading α) = .ok b := h
    split at h
    · cases h
    · next hgood =>
      obtain rfl := Except.ok.inj h
      exact ⟨rfl, hgood⟩

theorem of_tested_eq_ok {x : Reading α} {bad : α → Prop} [DecidablePred bad] {kind : ProblemKind} {b : α}
    (h : (do let a ← x; if bad a then problem kind else return a) = .ok b) : x = .ok b :=
  (tested_eq_ok h).1

/-- The value of a field was read, or it is the default. -/
theorem of_field_eq_ok {members : List (String × Json)} {names : List String} {read : Json → Reading α}
    {default? : Option α} {a : α} (h : field members names read default? = .ok a) :
    (∃ v, read v = .ok a) ∨ default? = some a := by
  unfold field at h
  split at h
  · next v _ => exact .inl ⟨v, under_eq_ok.mp h⟩
  · exact .inr (congrArg some (Except.ok.inj h))
  · cases h

/-- What is read as an amount is a finite numeral. -/
theorem isAmount_of_amount {v : Json} {s : String} (h : amount v = .ok s) : IsAmount s := by
  unfold amount amountText at h
  split at h
  · next text heq =>
    obtain rfl := Except.ok.inj h
    split at heq
    · split at heq
      · next v hv => exact ⟨v, Except.ok.inj heq ▸ hv⟩
      · cases heq
      · cases heq
    · next n =>
      obtain ⟨_, hwritable, heq⟩ := bind_eq_ok.mp heq
      obtain rfl := pure_eq_ok.mp heq
      exact isAmount_toString (requireWritable_eq_ok.mp hwritable)
    · cases heq
  · cases h

/-- A field of an amount holds one, if its default is one. -/
theorem isAmount_of_field {members : List (String × Json)} {names : List String}
    {default? : Option String} {s : String} (h : field members names amount default? = .ok s)
    (hdefault : ∀ t ∈ default?, IsAmount t) : IsAmount s := by
  rcases of_field_eq_ok h with ⟨v, hv⟩ | hs
  · exact isAmount_of_amount hv
  · exact hdefault s hs

theorem isAmount_zero : ∀ t ∈ some "0", IsAmount t := by
  rintro t ⟨⟩
  exact ⟨_, rfl⟩

theorem isAmount_of_asset {v : Json} {d : AssetDocument} (h : asset v = .ok d) :
    ∀ t ∈ d.amounts, IsAmount t := by
  unfold asset at h
  split at h
  · obtain ⟨⟨denom, balance, weight, decimals⟩, hfields, rfl⟩ := map_eq_ok.mp h
    rw [both_eq_ok, both_eq_ok, both_eq_ok] at hfields
    obtain ⟨-, hbalance, hweight, -⟩ := hfields
    simp only [AssetDocument.amounts, List.forall_mem_cons]
    exact ⟨isAmount_of_field hbalance nofun, isAmount_of_field hweight nofun, nofun⟩
  · cases h

/-- Every item of a list was read. -/
theorem exists_of_each {read : Json → Reading α} {vs : List Json} {i : Nat} {l : List α}
    (h : each read i vs = .ok l) : ∀ a ∈ l, ∃ v, read v = .ok a := by
  induction vs generalizing i l with
  | nil =>
    obtain rfl := Except.ok.inj h
    exact nofun
  | cons v vs ih =>
    rw [each] at h
    obtain ⟨⟨a, as⟩, hboth, rfl⟩ := map_eq_ok.mp h
    obtain ⟨hitem, hrest⟩ := both_eq_ok.mp hboth
    exact List.forall_mem_cons.mpr ⟨⟨v, under_eq_ok.mp hitem⟩, ih hrest⟩

theorem isAmount_of_assets {v : Json} {ds : List AssetDocument} (h : assets v = .ok ds) :
    ∀ d ∈ ds, ∀ t ∈ d.amounts, IsAmount t := by
  unfold assets at h
  split at h
  · intro d hd
    obtain ⟨w, hw⟩ := exists_of_each (of_tested_eq_ok h) d hd
    exact isAmount_of_asset hw
  · cases h

/-- A number that was read is one that can be written. -/
theorem isWritable_of_natural {v : Json} {n : Int} (h : natural v = .ok n) : Text.IsWritable n := by
  have hinteger : integer v = .ok n := of_tested_eq_ok h
  exact not_not.mp (tested_eq_ok hinteger).2

/-- What is read as a document has passed these checks. -/
theorem wellFormed_of_document {v : Json} {d : Document} (h : document v = .ok d) : d.WellFormed := by
  unfold document at h
  split at h
  · obtain ⟨⟨id, as, totalShares, swapFee, exitFee, shareDecimals, window⟩, hfields, rfl⟩ :=
      map_eq_ok.mp h
    simp only [both_eq_ok] at hfields
    obtain ⟨hid, hassets, htotalShares, hswapFee, hexitFee, -⟩ := hfields
    have hid : Text.IsWritable id := by
      rcases of_field_eq_ok hid with ⟨w, hw⟩ | hnone
      · exact isWritable_of_natural hw
      · cases hnone
    have hassets : ∀ a ∈ as, ∀ t ∈ a.amounts, IsAmount t := by
      rcases of_field_eq_ok hassets with ⟨w, hw⟩ | hnone
      · exact isAmount_of_assets hw
      · cases hnone
    refine ⟨?_, hid⟩
    simp only [amounts, List.forall_mem_append, List.forall_mem_cons, List.forall_mem_flatMap]
    exact ⟨hassets, isAmount_of_field htotalShares nofun, isAmount_of_field hswapFee isAmount_zero,
      isAmount_of_field hexitFee isAmount_zero, nofun⟩
  · cases h

end Reading

theorem wellFormed_of_ofText {content : String} {d : Document} (h : ofText content = .ok d) :
    d.WellFormed := by
  unfold ofText at h
  split at h
  · exact Reading.wellFormed_of_document h
  · cases h

end Document

/-! ## Documents that become pools -/

/-- The bounds of a window are of clocks that cannot be compared. -/
def Window.Mixed (w : Window) : Prop :=
  ∃ a ∈ w.opens, ∃ b ∈ w.closes, a.offset.isSome ≠ b.offset.isSome

/-- A window is refused as part of an invalid pool, or for clocks that cannot be compared. -/
theorem Window.refusesOnly_checked (w : Window) :
    RefusesOnly (fun f => f.kind = .invalidPool ∨ f = .mixedClocks ∧ w.Mixed) w.checked := by
  refine refusesOnly_bind ?_ fun _ _ => refusesOnly_pure w
  unfold check
  split
  · next a b hopens hcloses =>
    refine refusesOnly_bind ?_ fun _ _ => refusesOnly_require fun _ => .inl rfl
    unfold Moment.before Moment.before?
    split
    · exact refusesOnly_ok _
    · next hnone =>
      have hmixed : a.offset.isSome ≠ b.offset.isSome := by
        intro hsame
        rw [if_pos hsame] at hnone
        cases hnone
      exact refusesOnly_refuse (.inr ⟨rfl, a, hopens, b, hcloses, hmixed⟩)
  · exact refusesOnly_pure ()

theorem Window.checked_eq_ok {w v : Window} (h : w.checked = .ok v) : v = w ∧ w.Valid ∧ ¬ w.Mixed := by
  rw [checked, bind_eq_ok] at h
  obtain ⟨_, hcheck, h⟩ := h
  rw [pure_eq_ok] at h
  have hvalid := check_eq_ok.mp hcheck
  refine ⟨h.symm, hvalid, ?_⟩
  rintro ⟨a, ha, b, hb, hmixed⟩
  have hbefore := hvalid a ha b hb
  rw [Moment.before?, if_neg hmixed] at hbefore
  cases hbefore

/-- The window of a pool is that of its document, and its clocks agree. -/
theorem Window.mapM_checked_eq_ok {w v : Option Window} (h : w.mapM checked = .ok v) :
    v = w ∧ ∀ u ∈ w, u.Valid ∧ ¬ u.Mixed := by
  cases w with
  | none => exact ⟨(Except.ok.inj h).symm, nofun⟩
  | some w =>
    rw [Option.mapM_some, map_eq_pure_bind, bind_eq_ok] at h
    obtain ⟨u, hu, h⟩ := h
    rw [pure_eq_ok] at h
    obtain ⟨rfl, hchecked⟩ := checked_eq_ok hu
    refine ⟨h.symm, ?_⟩
    rintro u ⟨⟩
    exact hchecked

namespace Document

/-- What keeps a document from becoming a pool, besides the rules of pools and of fees. -/
inductive Fault (d : Document) : Failure → Prop
  | clocks {w : Window} (window : d.window = some w) (mixed : w.Mixed) : Fault d .mixedClocks
  | amount {t : String} (mem : t ∈ d.amounts) (large : IsTooLarge t) : Fault d .overflow

/-- What a document may be refused with. -/
def Refusal (d : Document) (f : Failure) : Prop :=
  f.kind = .invalidPool ∨ f.kind = .invalidFee ∨ d.Fault f

variable {d : Document}

/-- The amounts of a document are refused only for their size. -/
theorem refusesOnly_amount (hd : d.WellFormed) {t : String} (ht : t ∈ d.amounts) :
    RefusesOnly d.Refusal (Fixed.ofText t) := by
  intro f hf
  obtain ⟨rfl, hlarge⟩ := (Fixed.ofText_eq_error (hd.amounts t ht)).mp hf
  exact .inr (.inr (.amount ht hlarge))

/-- **A document** is refused for a rule of pools, for a rule of fees, or for a fault. -/
theorem refusesOnly_toPool (hd : d.WellFormed) : RefusesOnly d.Refusal d.toPool := by
  have hasset (a : AssetDocument) (ha : a ∈ d.assets) : RefusesOnly d.Refusal a.toAsset := by
    have hmem : ∀ t ∈ a.amounts, t ∈ d.amounts := fun t ht =>
      List.mem_append_left _ (List.mem_flatMap.mpr ⟨a, ha, ht⟩)
    refine refusesOnly_bind (refusesOnly_amount hd (hmem a.balance (by simp [AssetDocument.amounts])))
      fun balance _ => ?_
    refine refusesOnly_bind (refusesOnly_amount hd (hmem a.weight (by simp [AssetDocument.amounts])))
      fun weight _ => ?_
    exact Asset.refusesOnly_checked fun _ _ => .inl rfl
  refine refusesOnly_bind ?window fun window _ => ?_
  case window =>
    cases hwindow : d.window with
    | none => exact refusesOnly_pure none
    | some w =>
      refine refusesOnly_bind ?_ fun _ _ => refusesOnly_pure _
      refine w.refusesOnly_checked.mono fun f hf => ?_
      rcases hf with hkind | ⟨rfl, hmixed⟩
      · exact .inl hkind
      · exact .inr (.inr (.clocks hwindow hmixed))
  refine refusesOnly_bind (refusesOnly_mapM hasset) fun assets _ => ?_
  refine refusesOnly_bind (refusesOnly_amount hd (by simp [amounts])) fun totalShares _ => ?_
  refine refusesOnly_bind (refusesOnly_amount hd (by simp [amounts])) fun swapFee hswap => ?_
  refine refusesOnly_bind (refusesOnly_amount hd (by simp [amounts])) fun exitFee hexit => ?_
  have hfee {name t : String} {fee : Fixed} (h : Fixed.ofText t = .ok fee) :
      d.Refusal (Failure.namedFeeRange name fee).settled := by
    rw [Failure.settled, if_pos (by simpa [Failure.shown] using Fixed.printable_of_ofText h)]
    exact .inr (.inl rfl)
  refine Pool.refusesOnly_checked (fun fault hnumbers => ?_) (hfee hswap) (hfee hexit)
  rw [settled_of_isWritable rfl hnumbers hd.writable]
  exact .inl rfl

/-- A pool that was made of a document: its fields are those that the document says, it is valid, the
document has no fault, and every amount that was read can be written. -/
structure Made (d : Document) (p : Pool) : Prop where
  id : p.id = d.id
  assets_eq : d.assets.mapM AssetDocument.toAsset = .ok p.assets
  totalShares_eq : Fixed.ofText d.totalShares = .ok p.totalShares
  shareDecimals : p.shareDecimals = d.shareDecimals
  valid : p.Valid
  not_fault : ∀ f, ¬ d.Fault f
  totalShares : p.totalShares.printable = true
  assets : ∀ a ∈ p.assets, a.balance.printable = true ∧ a.weight.printable = true

/-- A described asset becomes a valid one with the same denomination, precision and amounts. -/
theorem toAsset_eq_ok {a : AssetDocument} {b : Asset} (h : a.toAsset = .ok b) :
    (b.denom, b.decimals) = (a.denom, a.decimals) ∧ Fixed.ofText a.balance = .ok b.balance ∧
      Fixed.ofText a.weight = .ok b.weight ∧ b.Valid := by
  rw [AssetDocument.toAsset, bind_eq_ok] at h
  obtain ⟨balance, hbalance, h⟩ := h
  rw [bind_eq_ok] at h
  obtain ⟨weight, hweight, h⟩ := h
  obtain ⟨rfl, hvalid⟩ := Asset.checked_eq_ok h
  exact ⟨rfl, hbalance, hweight, hvalid⟩

/-- What a document that became a pool was. -/
theorem made_of_toPool (hd : d.WellFormed) {p : Pool} (h : d.toPool = .ok p) :
    d.Made p := by
  simp only [toPool, bind_eq_ok] at h
  obtain ⟨window, hwindow, assets, hassets, totalShares, htotal, swapFee, hswap, exitFee, hexit, h⟩ := h
  rw [Pool.checked, bind_eq_ok] at h
  obtain ⟨_, hcheck, h⟩ := h
  rw [pure_eq_ok] at h
  obtain rfl := h
  obtain ⟨hmade, hread⟩ := mapM_answers hassets
  obtain ⟨rfl, hclocks⟩ := Window.mapM_checked_eq_ok hwindow
  have hasset : ∀ b ∈ assets, b.Valid ∧ b.balance.printable = true ∧ b.weight.printable = true := by
    intro b hb
    obtain ⟨a, -, hab⟩ := hmade b hb
    obtain ⟨-, hbalance, hweight, hvalid⟩ := toAsset_eq_ok hab
    exact ⟨hvalid, Fixed.printable_of_ofText hbalance, Fixed.printable_of_ofText hweight⟩
  have hamount : ∀ t ∈ d.amounts, ∃ a, Fixed.ofText t = .ok a := by
    simp only [amounts, List.forall_mem_append, List.forall_mem_cons, List.forall_mem_flatMap,
      AssetDocument.amounts]
    refine ⟨fun a ha => ?_, ⟨_, htotal⟩, ⟨_, hswap⟩, ⟨_, hexit⟩, List.forall_mem_nil _⟩
    obtain ⟨b, -, hab⟩ := hread a ha
    obtain ⟨-, hbalance, hweight, -⟩ := toAsset_eq_ok hab
    exact ⟨⟨_, hbalance⟩, ⟨_, hweight⟩, List.forall_mem_nil _⟩
  refine ⟨rfl, hassets, htotal, rfl, ?valid, ?fault, Fixed.printable_of_ofText htotal, fun a ha =>
    (hasset a ha).2⟩
  case valid =>
    exact (Pool.check_eq_ok (fun a ha => (hasset a ha).1) fun w hw => (hclocks w hw).1).mp hcheck
  case fault =>
    intro f hf
    cases hf with
    | clocks hw hmixed => exact (hclocks _ hw).2 hmixed
    | amount hmem hlarge =>
      obtain ⟨a, ha⟩ := hamount _ hmem
      have herror := (Fixed.ofText_eq_error (hd.amounts _ hmem)).mpr ⟨rfl, hlarge⟩
      rw [ha] at herror
      cases herror

end Document

end WeightedMarket
