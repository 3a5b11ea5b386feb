/-
  Folders that hold one document per pool.

  A folder maps names to files, or is missing altogether.  The pool `n` is kept in the file
  `n.json`, the number written in its shortest form; storing a pool creates the folder if need be
  and replaces the file.  A pool whose number is too long to be written has no file: it is neither
  stored nor looked up.  The list of pools takes every name that ends in `.json` and starts with
  an integer in any form, so it may name pools that no document is looked up for.
-/
import WeightedMarket.Action
import WeightedMarket.Document.Printer
import WeightedMarket.Document.Reader
import WeightedMarket.Path
import WeightedMarket.Table
import WeightedMarket.Text.Integer

namespace WeightedMarket

/-- What stands under a name in a folder. -/
inductive File where
  | text (content : String)
  /-- A file whose bytes are not text. -/
  | garbled (fault : Text.Utf8Fault)
  | folder
  deriving DecidableEq, Repr

/-- A folder and its path. -/
structure Folder where
  path : String
  present : Bool
  files : Table String File
  deriving DecidableEq, Repr

namespace Folder

/-- The path of a file. -/
def pathOf (d : Folder) (name : String) : String := Path.file d.path name

/-- What stands under a name. -/
def file? (d : Folder) (name : String) : Option File := if d.present then d.files.get? name else none

/-- The content of a file. -/
def read (d : Folder) (name : String) : Except Failure String :=
  match d.file? name with
  | none => refuse (.file .missing (d.pathOf name))
  | some .folder => refuse (.file .isFolder (d.pathOf name))
  | some (.garbled fault) => refuse (.notUtf8 fault)
  | some (.text content) => .ok content

/-- Puts something under a name; a folder is not replaced. -/
def put (name : String) (file : File) : Action Folder Unit := do
  let d ← Action.look
  Action.decide (require d.present (.file .missing (d.pathOf name)))
  Action.decide (require (decide (d.files.get? name ≠ some .folder)) (.file .isFolder (d.pathOf name)))
  Action.change fun d => { d with files := d.files.put name file }

/-- Creates a folder inside the folder. -/
def makeFolder (name : String) : Action Folder Unit := do
  let d ← Action.look
  Action.decide (require d.present (.file .missing (d.pathOf name)))
  Action.decide (require (!d.files.contains name) (.file .exists (d.pathOf name)))
  Action.change fun d => { d with files := d.files.put name .folder }

/-- Removes the folder with everything in it. -/
def remove : Action Folder Unit := do
  let d ← Action.look
  Action.decide (require d.present (.file .missing d.path))
  Action.change fun d => { d with present := false, files := Table.empty }

/-- The names in the folder, sorted. -/
def names (d : Folder) : Except Failure (List String) := do
  require d.present (.file .missing d.path)
  return d.files.keys.mergeSort fun a b => decide (a ≤ b)

/-! ## Pools -/

/-- The name of a pool's file. -/
def nameOf (pool : Int) : String := s!"{pool}.json"

/-- The pool that a name stands for, read liberally. -/
def poolOf? (name : String) : Option Int :=
  let stem := name.toList.take (name.length - 5)
  if name.toList.drop (name.length - 5) = ".json".toList ∧ stem ≠ [] then
    (Text.readInteger (String.ofList stem)).toOption
  else none

/-- Loads a pool. -/
def load (d : Folder) (pool : Int) : Except Failure Pool := do
  requireWritable pool
  let path := d.pathOf (nameOf pool)
  match d.file? (nameOf pool) with
  | none => refuse (.noPoolIn pool d.path)
  | some _ => do
    let content ← d.read (nameOf pool)
    match Document.ofText content with
    | .error problems => refuse (.badDocument pool path problems)
    | .ok document =>
      require (decide (document.id = pool)) (.wrongDocument path document.id pool)
      document.toPool

/-- Stores a pool; the folder is made even if the pool is refused. -/
def store (p : Pool) : Action Folder Unit := do
  Action.change fun d => { d with present := true }
  let content ← Action.decide (Document.write p)
  Action.decide (requireWritable p.id)
  put (nameOf p.id) (.text content)

/-- The numbers of the pools that the names stand for, in their order. -/
def poolIds (d : Folder) : List Int :=
  if d.present then (d.files.keys.filterMap poolOf?).mergeSort fun a b => decide (a ≤ b) else []

end Folder

end WeightedMarket
