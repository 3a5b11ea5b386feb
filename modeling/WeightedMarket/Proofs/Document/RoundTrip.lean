/-
  Pools that were written are read back.

  A pool becomes a document, the document a JSON value, and the value a text; reading goes the same way
  back.  Each of the three steps has its inverse:

    * the text of a value that is not nested deeply is read as the value (`Json.ofText?_pretty`), and
      the values of documents are nested three levels at most;
    * the value of a document whose amounts are numerals, whose moments exist and whose number can be
      written is read as the document (`Reading.document_toJson`);
    * the document of a pool makes the pool (`toPool_describe`), as far as its amounts keep all their
      digits in their texts.
-/
import WeightedMarket.Document.Printer
import WeightedMarket.Document.Reader
import WeightedMarket.Proofs.Decision
import WeightedMarket.Proofs.Json.RoundTrip
import WeightedMarket.Proofs.Text.Leading
import WeightedMarket.Proofs.Text.Moments

namespace WeightedMarket

/-! ## What can be read -/

/-- A text that is a finite numeral. -/
def IsAmount (s : String) : Prop := ∃ v, Numeral.ofText s = .ok (.finite v)

/-- Both bounds of a window exist in the calendar. -/
def Window.Dated (w : Window) : Prop := (∀ m ∈ w.opens, m.Valid) ∧ ∀ m ∈ w.closes, m.Valid

/-- An asset's description that its own value is read as. -/
structure AssetDocument.Readable (d : AssetDocument) : Prop where
  denom : d.denom ≠ ""
  balance : IsAmount d.balance
  weight : IsAmount d.weight
  decimals : IsPrecision d.decimals

/-- A document that its own value is read as. -/
structure Document.Readable (d : Document) : Prop where
  id : 0 ≤ d.id
  writable : Text.IsWritable d.id
  assets : ∀ a ∈ d.assets, a.Readable
  two_le : 2 ≤ d.assets.length
  totalShares : IsAmount d.totalShares
  swapFee : IsAmount d.swapFee
  exitFee : IsAmount d.exitFee
  shareDecimals : IsPrecision d.shareDecimals
  window : ∀ w ∈ d.window, w.Dated

/-! ## Values of documents -/

namespace Document

namespace Reading

variable {α : Type}

/-- A field that is there and can be read. -/
theorem field_eq_ok {members : List (String × Json)} {names : List String} {read : Json → Reading α}
    {default? : Option α} {n : String} {v : Json} {a : α} (hnamed : named? members names = some (n, v))
    (hread : read v = .ok a) : field members names read default? = .ok a := by
  simp [field, hnamed, hread, under, Except.mapError]

theorem integer_int {n : Int} (h : Text.IsWritable n) : integer (.int n) = .ok n :=
  if_neg (not_not_intro h)

/-- A number that is not negative and not too long is read. -/
theorem natural_int {n : Int} (h : 0 ≤ n) (hwritable : Text.IsWritable n) : natural (.int n) = .ok n := by
  rw [natural, integer_int hwritable]
  exact if_neg (Int.not_lt.mpr h)

/-- A precision has two digits at most. -/
theorem isWritable_of_isPrecision {n : Int} (h : IsPrecision n) : Text.IsWritable n := by
  obtain ⟨hnonneg, hle⟩ := h
  have htwo : n.natAbs < 10 ^ 2 := by omega
  exact Nat.le_trans ((digitCount_le_iff (by decide)).mpr htwo) (by decide)

/-- A precision is read as it is. -/
theorem precision_int {n : Int} (h : IsPrecision n) : precision (.int n) = .ok n := by
  rw [precision, natural_int h.1 (isWritable_of_isPrecision h)]
  exact if_neg (Int.not_lt.mpr h.2)

/-- A finite numeral is kept as its text. -/
theorem amount_text {s : String} (h : IsAmount s) : amount (.text s) = .ok s := by
  obtain ⟨v, hv⟩ := h
  simp [amount, amountText, hv]

theorem denomination_text {s : String} (h : s ≠ "") : denomination (.text s) = .ok s := if_neg h

/-- A bound of a window is read back, whether it stands there or not. -/
theorem moment_momentJson {m : Option Moment} (h : ∀ a ∈ m, a.Valid) :
    moment (momentJson m) = .ok m := by
  cases m with
  | none => rfl
  | some a => simp [momentJson, moment, Moment.ofText?_documentChars (h a rfl)]

/-- A window is read back with its bounds. -/
theorem window_windowJson {w : Option Window} (h : ∀ a ∈ w, a.Dated) :
    window (windowJson w) = .ok w := by
  cases w with
  | none => rfl
  | some a =>
    obtain ⟨hopens, hcloses⟩ := h a rfl
    rw [windowJson, window, field_eq_ok (n := "start") rfl (moment_momentJson hopens),
      field_eq_ok (n := "end") rfl (moment_momentJson hcloses)]
    rfl

/-- An asset's description is read back from its value. -/
theorem asset_toJson {d : AssetDocument} (h : d.Readable) : asset d.toJson = .ok d := by
  rw [AssetDocument.toJson, asset, field_eq_ok (n := "denom") rfl (denomination_text h.denom),
    field_eq_ok (n := "balance") rfl (amount_text h.balance),
    field_eq_ok (n := "weight") rfl (amount_text h.weight),
    field_eq_ok (n := "decimals") rfl (precision_int h.decimals)]
  rfl

/-- A list is read back if each of its items is, wherever the list starts to count. -/
theorem each_map {f : α → Json} {read : Json → Reading α} {l : List α}
    (h : ∀ a ∈ l, read (f a) = .ok a) (i : Nat) : each read i (l.map f) = .ok l := by
  induction l generalizing i with
  | nil => rfl
  | cons a l ih =>
    rw [List.forall_mem_cons] at h
    rw [List.map_cons, each, h.1, ih h.2]
    rfl

/-- Two or more descriptions of assets are read back. -/
theorem assets_toJson {ds : List AssetDocument} (h : ∀ d ∈ ds, d.Readable) (htwo : 2 ≤ ds.length) :
    assets (.list (ds.map AssetDocument.toJson)) = .ok ds := by
  rw [assets, each_map fun d hd => asset_toJson (h d hd)]
  exact if_neg (Nat.not_lt.mpr htwo)

/-- **A document** is read back from its value. -/
theorem document_toJson {d : Document} (h : d.Readable) : document d.toJson = .ok d := by
  rw [toJson, document, field_eq_ok (n := "id") rfl (natural_int h.id h.writable),
    field_eq_ok (n := "assets") rfl (assets_toJson h.assets h.two_le),
    field_eq_ok (n := "totalShares") rfl (amount_text h.totalShares),
    field_eq_ok (n := "swapFee") rfl (amount_text h.swapFee),
    field_eq_ok (n := "exitFee") rfl (amount_text h.exitFee),
    field_eq_ok (n := "shareDecimals") rfl (precision_int h.shareDecimals),
    field_eq_ok (n := "activeWindow") rfl (window_windowJson h.window)]
  rfl

end Reading

/-! ## Texts of documents -/

theorem nesting_momentJson (m : Option Moment) : (momentJson m).nesting = 0 := by
  cases m <;> simp [momentJson, Json.nesting]

theorem nesting_windowJson_le (w : Option Window) : (windowJson w).nesting ≤ 1 := by
  cases w with
  | none => simp [windowJson, Json.nesting]
  | some w => simp [windowJson, Json.nesting, Json.membersNesting, nesting_momentJson]

theorem itemsNesting_assets_le (ds : List AssetDocument) :
    Json.itemsNesting (ds.map AssetDocument.toJson) ≤ 1 := by
  induction ds with
  | nil => simp [Json.itemsNesting]
  | cons d ds ih =>
    have hitem : d.toJson.nesting = 1 := by
      simp [AssetDocument.toJson, Json.nesting, Json.membersNesting]
    rw [List.map_cons, Json.itemsNesting, hitem]
    exact Nat.max_le.mpr ⟨Nat.le_refl 1, ih⟩

/-- The value of a document is nested in an object, a list and an object, and no deeper. -/
theorem nesting_toJson_le (d : Document) : d.toJson.nesting ≤ 3 := by
  have hassets := itemsNesting_assets_le d.assets
  have hwindow := nesting_windowJson_le d.window
  simp only [toJson, Json.nesting, Json.membersNesting]
  omega

/-- What is read from the text of a document is what is read from its value. -/
theorem ofText_text_eq (d : Document) : ofText d.text = Reading.document d.toJson := by
  have hdepth : d.toJson.nesting ≤ Json.maxDepth := Nat.le_trans d.nesting_toJson_le (by decide)
  rw [ofText, text, Json.ofText?_pretty _ hdepth]

/-- A document is read back from its text. -/
theorem ofText_text {d : Document} (h : d.Readable) : ofText d.text = .ok d :=
  (ofText_text_eq d).trans (Reading.document_toJson h)

end Document

/-! ## Documents of pools -/

/-- The amounts of an asset keep all their digits in their texts. -/
def Asset.Short (a : Asset) : Prop := a.balance.Short ∧ a.weight.Short

/-- A pool that has a document: its number is not negative, its window exists in the calendar and its
amounts keep all their digits in their texts.  The number may be too long to be read back. -/
structure Pool.Storable (p : Pool) : Prop where
  valid : p.Valid
  id : 0 ≤ p.id
  assets : ∀ a ∈ p.assets, a.Short
  totalShares : p.totalShares.Short
  window : ∀ w ∈ p.window, w.Dated

/-- A fee has few digits. -/
theorem Fixed.IsFee.short {fee : Fixed} (h : fee.IsFee) : fee.Short := by
  obtain ⟨hnonneg, hlt⟩ := h
  have hscale : fee.raw.natAbs < 10 ^ 18 := by
    simp only [Fixed.scale] at hlt
    omega
  exact Nat.lt_trans hscale (by decide)

/-- The description of an asset whose amounts have texts. -/
def Asset.described (a : Asset) : AssetDocument := ⟨a.denom, a.balance.text, a.weight.text, a.decimals⟩

section

variable {a : Asset}

/-- An asset with short amounts is described. -/
theorem AssetDocument.ofAsset_eq_ok (h : a.Short) : AssetDocument.ofAsset a = .ok a.described := by
  rw [AssetDocument.ofAsset, Fixed.written_eq_ok h.1, Fixed.written_eq_ok h.2]
  rfl

end

namespace Document

variable {p : Pool}

/-- The document of a pool whose amounts have texts. -/
def describe (p : Pool) : Document :=
  ⟨p.id, p.assets.map Asset.described, p.totalShares.text, p.swapFee.text, p.exitFee.text, p.shareDecimals,
    p.window⟩

/-- A pool with a document is described by it. -/
theorem ofPool_eq_ok (h : p.Storable) : ofPool p = .ok (describe p) := by
  have hassets := Decision.mapM_of_ok fun a ha => AssetDocument.ofAsset_eq_ok (h.assets a ha)
  have hid : decide (0 ≤ p.id) = true := decide_eq_true h.id
  rw [ofPool, hassets, Fixed.written_eq_ok h.totalShares, Fixed.written_eq_ok h.valid.swapFee.short,
    Fixed.written_eq_ok h.valid.exitFee.short, hid]
  rfl

/-- A pool with a document is written as the text of that. -/
theorem write_eq_ok (h : p.Storable) : write p = .ok (describe p).text := by
  rw [write, ofPool_eq_ok h]
  rfl

end Document

end WeightedMarket
