/-
  Tables: finite maps that keep their entries in the order of first insertion.

  `get?` reads a key and `put` writes one; a key that is written again keeps its place.  The two
  laws `get?_put` and `keys_put` are all that the rest of the library uses.
-/

namespace WeightedMarket

/-- A list of entries, at most one for a key. -/
structure Table (κ ν : Type) where
  entries : List (κ × ν)
  deriving DecidableEq, Repr

namespace Table

variable {κ ν : Type} [DecidableEq κ]

instance : Inhabited (Table κ ν) := ⟨⟨[]⟩⟩

def empty : Table κ ν := ⟨[]⟩

/-- The value at a key. -/
def get? (t : Table κ ν) (k : κ) : Option ν := (t.entries.find? (·.1 = k)).map (·.2)

/-- The entries with the value at a key replaced or, if the key is new, appended. -/
def putEntry (k : κ) (v : ν) : List (κ × ν) → List (κ × ν)
  | [] => [(k, v)]
  | e :: r => if e.1 = k then (k, v) :: r else e :: putEntry k v r

/-- The table with a value at a key. -/
def put (t : Table κ ν) (k : κ) (v : ν) : Table κ ν := ⟨putEntry k v t.entries⟩

/-- The table of a list of entries; of several for one key the last counts. -/
def ofList (entries : List (κ × ν)) : Table κ ν := entries.foldl (fun t e => t.put e.1 e.2) empty

/-- The keys in the order of first insertion. -/
def keys (t : Table κ ν) : List κ := t.entries.map (·.1)

def contains (t : Table κ ν) (k : κ) : Bool := (t.get? k).isSome

@[simp] theorem get?_empty (k : κ) : (empty : Table κ ν).get? k = none := rfl

/-- Writing a key changes what is read there and nothing else. -/
theorem get?_put (t : Table κ ν) (k j : κ) (v : ν) :
    (t.put k v).get? j = if k = j then some v else t.get? j := by
  simp only [get?, put]
  induction t.entries with
  | nil => by_cases h : k = j <;> simp [putEntry, h]
  | cons e r ih =>
    by_cases hk : e.1 = k
    · by_cases h : k = j
      · simp [putEntry, hk, h]
      · simp [putEntry, hk, h]
    · by_cases hj : e.1 = j
      · have : ¬ k = j := fun he => hk (hj.trans he.symm)
        simp [putEntry, hj, this, Ne.symm this]
      · simpa [putEntry, hk, hj] using ih

theorem map_fst_putEntry (k : κ) (v : ν) (es : List (κ × ν)) :
    (putEntry k v es).map (·.1) =
      if k ∈ es.map (·.1) then es.map (·.1) else es.map (·.1) ++ [k] := by
  induction es with
  | nil => simp [putEntry]
  | cons e r ih =>
    by_cases hk : e.1 = k
    · simp [putEntry, hk]
    · have : ¬ k = e.1 := fun h => hk h.symm
      simp only [putEntry, hk, if_false, List.map_cons, ih, List.mem_cons, this, false_or]
      split <;> simp

/-- A key that is written again keeps its place; a new one goes to the end. -/
theorem keys_put (t : Table κ ν) (k : κ) (v : ν) :
    (t.put k v).keys = if k ∈ t.keys then t.keys else t.keys ++ [k] :=
  map_fst_putEntry k v t.entries

end Table

end WeightedMarket
