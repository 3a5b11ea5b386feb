/-
  What becomes of a pool that was written, whatever its amounts are.

  An amount longer than the decimal context loses digits in its text, and a window may be read as another
  one, so a pool is not always read back as it was.  But a reader never takes what was written for
  something else (`Reading.Faithful`), so of a document that is read back only the window can have changed
  (`ofText_text_cases`); and a pool that is made of it counts the same assets in the same units, and holds
  whole units if the pool that was written did (`kept_of_made`).
-/
import WeightedMarket.Proofs.Document.Faults
import WeightedMarket.Proofs.Units

namespace WeightedMarket

open Decision

namespace Document

/-! ## Readers -/

namespace Reading

variable {α : Type} {write : α → Json} {read : Json → Reading α}

/-- Whatever is read from a value that was written is what was written. -/
def Faithful (write : α → Json) (read : Json → Reading α) : Prop :=
  ∀ a b, read (write a) = .ok b → b = a

/-- A field that is there. -/
theorem Faithful.field (h : Faithful write read) {members : List (String × Json)} {names : List String}
    {default? : Option α} {n : String} {a b : α} (hnamed : named? members names = some (n, write a))
    (hread : field members names read default? = .ok b) : b = a := by
  simp only [Reading.field, hnamed] at hread
  exact h a b (under_eq_ok.mp hread)

theorem faithful_denomination : Faithful .text denomination := by
  intro s t h
  rw [denomination] at h
  split at h
  · cases h
  · exact (Except.ok.inj h).symm

/-- An amount is kept as the text that it is read from. -/
theorem faithful_amount : Faithful .text amount := by
  intro s t h
  simp only [amount, amountText] at h
  rcases hs : Numeral.ofText s with _ | _ | _ | _ <;> simp only [hs] at h
  · cases h
  · exact (Except.ok.inj h).symm
  · cases h
  · cases h

theorem faithful_natural : Faithful .int natural := by
  intro n k h
  have hinteger : integer (.int n) = .ok k := of_tested_eq_ok h
  have hany : anyInteger (.int n) = .ok k := of_tested_eq_ok hinteger
  exact (Except.ok.inj hany).symm

theorem faithful_precision : Faithful .int precision := by
  intro n k h
  exact faithful_natural n k (of_tested_eq_ok h)

/-- The reader of assets adds nothing and drops nothing. -/
theorem faithful_asset : Faithful AssetDocument.toJson asset := by
  intro d d' h
  rw [AssetDocument.toJson, asset] at h
  obtain ⟨⟨denom, balance, weight, decimals⟩, hfields, rfl⟩ := map_eq_ok.mp h
  rw [both_eq_ok, both_eq_ok, both_eq_ok] at hfields
  obtain ⟨hdenom, hbalance, hweight, hdecimals⟩ := hfields
  obtain rfl := faithful_denomination.field (n := "denom") rfl hdenom
  obtain rfl := faithful_amount.field (n := "balance") rfl hbalance
  obtain rfl := faithful_amount.field (n := "weight") rfl hweight
  obtain rfl := faithful_precision.field (n := "decimals") rfl hdecimals
  rfl

/-- A list is read faithfully if its items are. -/
theorem Faithful.each (h : Faithful write read) {i : Nat} {l l' : List α}
    (hread : each read i (l.map write) = .ok l') : l' = l := by
  induction l generalizing i l' with
  | nil => exact (Except.ok.inj hread).symm
  | cons a l ih =>
    rw [List.map_cons, Reading.each] at hread
    obtain ⟨⟨b, bs⟩, hboth, rfl⟩ := map_eq_ok.mp hread
    obtain ⟨hitem, hrest⟩ := both_eq_ok.mp hboth
    rw [h a b (under_eq_ok.mp hitem), ih hrest]

theorem faithful_assets : Faithful (fun ds => .list (ds.map AssetDocument.toJson)) assets := by
  intro ds ds' h
  exact faithful_asset.each (of_tested_eq_ok h)

/-- **A document** is read back but for its window. -/
theorem document_toJson_cases {d d' : Document} (h : document d.toJson = .ok d') :
    d' = { d with window := d'.window } := by
  rw [toJson, document] at h
  obtain ⟨⟨id, assets, totalShares, swapFee, exitFee, shareDecimals, window⟩, hfields, rfl⟩ :=
    map_eq_ok.mp h
  simp only [both_eq_ok] at hfields
  obtain ⟨hid, hassets, htotalShares, hswapFee, hexitFee, hshareDecimals, -⟩ := hfields
  obtain rfl := faithful_natural.field (n := "id") rfl hid
  obtain rfl := faithful_assets.field (n := "assets") rfl hassets
  obtain rfl := faithful_amount.field (n := "totalShares") rfl htotalShares
  obtain rfl := faithful_amount.field (n := "swapFee") rfl hswapFee
  obtain rfl := faithful_amount.field (n := "exitFee") rfl hexitFee
  obtain rfl := faithful_precision.field (n := "shareDecimals") rfl hshareDecimals
  rfl

end Reading

/-- A document is read back from its text but for its window. -/
theorem ofText_text_cases {d d' : Document} (h : ofText d.text = .ok d') :
    d' = { d with window := d'.window } :=
  Reading.document_toJson_cases ((ofText_text_eq d).symm.trans h)

end Document

/-! ## Pools -/

/-- Whole units are read back as whole units. -/
theorem Fixed.unitOf_dvd_of_ofText {a b : Fixed} {decimals : Nat} (h : ofText a.text = .ok b)
    (ha : unitOf decimals ∣ a.raw) : unitOf decimals ∣ b.raw :=
  pow_dvd_of_ofText h ha

/-- An asset has one description. -/
theorem AssetDocument.described_of_ofAsset {a : Asset} {d : AssetDocument} (h : ofAsset a = .ok d) :
    d = a.described := by
  rw [ofAsset, bind_eq_ok] at h
  obtain ⟨balance, hbalance, h⟩ := h
  rw [bind_eq_ok] at h
  obtain ⟨weight, hweight, h⟩ := h
  rw [pure_eq_ok] at h
  rw [← h, Fixed.text_of_written hbalance, Fixed.text_of_written hweight]
  rfl

namespace Document

variable {p q : Pool} {content : String} {d : Document}

theorem describe_of_ofPool (h : ofPool p = .ok d) : d = describe p := by
  simp only [ofPool, bind_eq_ok, pure_eq_ok] at h
  obtain ⟨assets, hassets, totalShares, htotal, swapFee, hswap, exitFee, hexit, _, _, rfl⟩ := h
  obtain ⟨rfl, _⟩ := mapM_eq_ok (fun _ _ => AssetDocument.described_of_ofAsset) hassets
  rw [Fixed.text_of_written htotal, Fixed.text_of_written hswap, Fixed.text_of_written hexit]
  rfl

/-- A pool is written as its description, if it is written at all. -/
theorem text_of_write (h : write p = .ok content) : content = (describe p).text := by
  rw [write] at h
  cases hdocument : ofPool p with
  | error f => rw [hdocument] at h; cases h
  | ok d =>
    rw [hdocument] at h
    rw [← describe_of_ofPool hdocument]
    exact (Except.ok.inj h).symm

/-- **A pool that was read back** is kept. -/
theorem kept_of_made (hwrite : write p = .ok content) (hread : ofText content = .ok d) (hmade : d.Made q) :
    p.Kept q := by
  rw [text_of_write hwrite] at hread
  have hd := ofText_text_cases hread
  -- every asset was made of the description of one
  have hassets : p.assets.mapM (fun a => a.described.toAsset) = .ok q.assets := by
    rw [← hmade.assets_eq, hd, describe, List.mapM_map]
    rfl
  have hshares : Fixed.ofText p.totalShares.text = .ok q.totalShares := by
    rw [← hmade.totalShares_eq, hd]
    rfl
  have hdecimals : q.shareDecimals = p.shareDecimals := by
    rw [hmade.shareDecimals, hd]
    rfl
  have hid : q.id = p.id := by
    rw [hmade.id, hd]
    rfl
  refine ⟨⟨hid, mapM_map_eq (fun a b hb => (toAsset_eq_ok hb).1) hassets, hdecimals⟩, hmade.valid,
    fun hwhole => ⟨?_, ?_⟩⟩
  · intro b hb
    obtain ⟨a, ha, hab⟩ := (mapM_answers hassets).1 b hb
    obtain ⟨hkinds, hbalance, -⟩ := toAsset_eq_ok hab
    have hunit : b.decimals = a.decimals := congrArg Prod.snd hkinds
    rw [Asset.unit, hunit]
    exact Fixed.unitOf_dvd_of_ofText hbalance (hwhole.balances a ha)
  · rw [Pool.shareUnit, hdecimals]
    exact Fixed.unitOf_dvd_of_ofText hshares hwhole.supply

end Document

end WeightedMarket
