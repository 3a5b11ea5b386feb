/-
  Paths of folders and files, as they are shown.

  A path is a list of names between slashes.  Empty names and names of the current folder say
  nothing and are dropped; a path that has no name left is the current folder, a point.  A path
  starts at the root if it starts with a slash; exactly two slashes in front are kept, because they
  may mean another root.
-/

namespace WeightedMarket.Path

/-- The names of a path between its slashes. -/
def names (path : String) : List String :=
  (path.splitOn "/").filter fun n => n ≠ "" ∧ n ≠ "."

/-- The root that a path starts from; empty for a path from the current folder. -/
def root (path : String) : String :=
  match (path.toList.takeWhile (· == '/')).length with
  | 0 => ""
  | 2 => "//"
  | _ => "/"

/-- The shortest text of a path. -/
def shown (path : String) : String :=
  let text := root path ++ "/".intercalate (names path)
  if text = "" then "." else text

/-- The path of a file in a folder whose path is shown. -/
def file (folder name : String) : String :=
  if folder = "." then name
  else if folder.endsWith "/" then folder ++ name
  else folder ++ "/" ++ name

end WeightedMarket.Path
