/-
  The command: questions about one pool in a folder of documents.

  A command line and the environment make a job, which names a folder, a pool and what is asked of
  it; the job is answered from the folder.  A request that the engine refuses ends with a message;
  a refusal that comes from elsewhere goes through.
-/
import WeightedMarket.Command.Arguments
import WeightedMarket.Folder
import WeightedMarket.Pool.Shares
import WeightedMarket.Settings

namespace WeightedMarket.Command

/-- How a command ends. -/
inductive Ending where
  | usage
  | help
  | refused (message : String)
  | done (output : String)
  deriving DecidableEq, Repr

/-- The exit code of the command. -/
def Ending.code : Ending → Nat
  | .usage => 2
  | .refused _ => 1
  | .help | .done _ => 0

/-- What a command has to do. -/
structure Job where
  folder : String
  pool : Int
  query : Query
  deriving DecidableEq, Repr

/-- The line of an asset. -/
def assetLine (p : Pool) (a : Asset) : Except Failure String := do
  let part ← p.normalizedWeight a.denom
  let (balance, weight) := (← a.balance.written, ← a.weight.written)
  return s!"    {a.denom}: balance={balance} weight={weight} normalized=" ++ (← part.written)

/-- The lines that describe a pool. -/
def describe (p : Pool) : Except Failure (List String) := do
  requireWritable p.id
  let head :=
    [s!"pool {p.id}",
     s!"  address:      {p.address}",
     s!"  share denom:  {p.shareDenom}",
     "  total shares: " ++ (← p.totalShares.written),
     "  swap fee:     " ++ (← p.swapFee.written),
     "  exit fee:     " ++ (← p.exitFee.written)]
  let bound (m : Option Moment) : String := (m.map Moment.text).getD "-"
  let active := match p.window with
    | none => []
    | some w => [s!"  active:       [{bound w.opens}, {bound w.closes})"]
  let assets ← p.assets.mapM (assetLine p)
  return head ++ active ++ ["  assets:"] ++ assets

/-- The answer to a query. -/
def answer (p : Pool) : Query → Except Failure String
  | .show => do return "\n".intercalate (← describe p)
  | .quoteIn coin denomOut => do (← p.quoteSale coin denomOut p.swapFee).written
  | .quoteOut coin denomIn => do (← p.quotePurchase coin denomIn p.swapFee).written
  | .spotPrice quote base withFee => do
    let price ← if withFee then p.spotPriceWithFee quote base else p.spotPrice quote base
    price.written

/-- The job that a command line and an environment make, or the end of the command. -/
def Job.ofArguments (words : List String) (env : Settings.Environment) :
    Except Failure (Except Ending Job) :=
  match Arguments.ofWords words with
  | .error .usage => .ok (.error .usage)
  | .error .help => .ok (.error .help)
  | .error (.failure f) => .error f
  | .ok args =>
    match Settings.ofEnvironment env with
    | .error f => .ok (.error (.refused f.message))
    | .ok settings =>
      match (args.folder.map Path.shown).or settings.poolFolder with
      | none => .ok (.error .usage)
      | some folder => .ok (.ok ⟨folder, args.pool, args.query⟩)

/-- Answers a job from its folder. -/
def Job.run (j : Job) (d : Folder) : Except Failure Ending :=
  match (do answer (← d.load j.pool) j.query) with
  | .ok output => .ok (.done output)
  | .error f => if f.isEngine then .ok (.refused f.message) else .error f

/-- Runs the command; `folderAt` gives the folder of a path. -/
def run (words : List String) (env : Settings.Environment) (folderAt : String → Folder) :
    Except Failure Ending := do
  match ← Job.ofArguments words env with
  | .error ending => return ending
  | .ok job => job.run (folderAt job.folder)

end WeightedMarket.Command
