/-
  The command line: reads the environment and the document of the pool that is asked for, and prints
  the answer.
-/
import WeightedMarket.Command

open WeightedMarket

/-- What stands at a path. -/
def fileAt (path : String) : IO (Option File) := do
  try
    let bytes ← IO.FS.readBinFile path
    match Text.decodeUtf8 (bytes.toList.map UInt8.toNat) with
    | .ok content => return some (.text content)
    | .error fault => return some (.garbled fault)
  catch
    | .noFileOrDirectory .. => return none
    | .inappropriateType .. => return some .folder
    | e => throw e

/-- The variables of the environment that settings look at. -/
def environment : IO Settings.Environment := do
  let names := ["GAMM_CONVERGE_MAX_ATTEMPTS", "GAMM_LOG_LEVEL", "GAMM_POOL_DIR"]
  let values ← names.mapM fun name => do return (name, ← IO.getEnv name)
  return values.filterMap fun (name, value?) => value?.map fun value => (name, value)

/-- The folder of a job, with the one file that the job may look at. -/
def folderOf (job : Command.Job) : IO Folder := do
  let folder : Folder := ⟨job.folder, true, Table.empty⟩
  let name := Folder.nameOf job.pool
  match ← fileAt (folder.pathOf name) with
  | some file => return { folder with files := Table.ofList [(name, file)] }
  | none => return folder

def usage : String :=
  "usage: gamm [--pool-dir DIR] [--verbose] (show | quote-in | quote-out | spot-price) POOL ..."

def main (words : List String) : IO UInt32 := do
  let outcome ← match Command.Job.ofArguments words (← environment) with
    | .error f => pure (.error f)
    | .ok (.error ending) => pure (.ok ending)
    | .ok (.ok job) => do pure (job.run (← folderOf job))
  match outcome with
  | .error f =>
    IO.eprintln (f.kind.name ++ ": " ++ f.message)
    return 1
  | .ok ending =>
    match ending with
    | .done output => IO.println output
    | .refused message => IO.eprintln ("error: " ++ message)
    | .help => IO.println usage
    | .usage => IO.eprintln usage
    return ending.code.toUInt32
