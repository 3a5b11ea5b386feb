/-
  Where pools are kept: on a shelf in memory, or in a folder of documents.
-/
import WeightedMarket.Folder
import WeightedMarket.Journal

namespace WeightedMarket

/-- A store of pools by their numbers. -/
inductive Repository where
  | shelf (pools : Table Int Pool)
  | folder (folder : Folder)
  deriving Repr

namespace Repository

/-- Loads a pool. -/
def load (r : Repository) (pool : Int) : Except Failure Pool :=
  match r with
  | .shelf pools =>
    match pools.get? pool with
    | some p => .ok p
    | none => refuse (.noPool pool)
  | .folder d => d.load pool

/-- Keeps a pool, in place of the one of its number. -/
def store (p : Pool) : Action Repository Unit := fun r =>
  match r with
  | .shelf pools => (.ok (), .shelf (pools.put p.id p))
  | .folder d =>
    let (outcome, d) := Folder.store p d
    (outcome, .folder d)

/-- What is written down when a pool has been stored. -/
def storeNote? (r : Repository) (p : Pool) : Option Entry :=
  match r with
  | .shelf _ => none
  | .folder d => some (.documentStored p.id (d.pathOf (Folder.nameOf p.id)))

/-- Whether there is a pool of that number on the shelf, or a file for it. -/
def contains (r : Repository) (pool : Int) : Bool :=
  match r with
  | .shelf pools => pools.contains pool
  | .folder d => (d.file? (Folder.nameOf pool)).isSome

/-- The pools on the shelf; those in a folder are not listed. -/
def shelved : Repository → List Pool
  | .shelf pools => pools.entries.map (·.2)
  | .folder _ => []

/-- The repository brought back to an earlier state.  Documents in a folder stay as they are. -/
def restore (r saved : Repository) : Repository :=
  match r with
  | .shelf _ => saved
  | .folder _ => r

end Repository

end WeightedMarket
