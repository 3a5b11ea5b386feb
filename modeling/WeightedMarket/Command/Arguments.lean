/-
  The arguments of the command.

  Options of the whole command come first; the first value names what is asked for, and everything
  after it belongs to that.  What is asked for has its own operands, taken in order, among which its
  options may stand anywhere.  Options that nobody knows and operands too many spoil the command
  line, but only after everything has been read.

  The divider belongs to the operand next to it.  A further `--` after it is dropped like the
  divider itself, and leaves its operand without a value, unless it directly follows the divider of
  its own operand.
-/
import WeightedMarket.Coin.Reader
import WeightedMarket.Command.Words
import WeightedMarket.Text.Integer

namespace WeightedMarket.Command

/-- What can be asked of a pool. -/
inductive Query where
  | show
  | quoteIn (coin : Coin) (denomOut : String)
  | quoteOut (coin : Coin) (denomIn : String)
  | spotPrice (quote base : String) (withFee : Bool)
  deriving DecidableEq, Repr

/-- A command line that has the form of a request. -/
structure Arguments where
  folder : Option String
  verbose : Bool
  pool : Int
  query : Query
  deriving DecidableEq, Repr

/-! ## Options of the whole command -/

/-- The meanings of the options of the whole command. -/
inductive General where
  | help
  | folder
  | verbose
  deriving DecidableEq, Repr

def generalOptions : Options General :=
  [("-h", .help), ("--help", .help), ("--pool-dir", .folder), ("--verbose", .verbose), ("-v", .verbose)]

/-- What has been read so far. -/
structure Settled where
  folder : Option String
  verbose : Bool
  spoiled : Bool
  deriving DecidableEq, Repr

/-- The value of an option; the word `--` leaves it without one. -/
def optionValue (s : String) : Except Stop String :=
  if s = "--" then .error (.failure .noOperand) else .ok s

/-- Applies options that take no value. -/
def Settled.apply (s : Settled) : List General → Except Stop Settled
  | [] => .ok s
  | .help :: _ => .error .help
  | .verbose :: r => Settled.apply { s with verbose := true } r
  | .folder :: r => Settled.apply s r

/-- Reads the options of the whole command, each word beside what it was taken for, and answers the
name of what is asked for and the words after it. -/
def general (s : Settled) : List (Word General × String) → Except Stop (Settled × String × List String)
  | [] => .error .usage
  | (.value name, _) :: rest => .ok (s, name, rest.map (·.2))
  | (.divider, _) :: _ => .error .usage
  | (.unknown, _) :: rest => general { s with spoiled := true } rest
  | (.option .folder _ (some text), _) :: rest => do
    let folder ← optionValue text
    general { s with folder := some folder } rest
  | (.option .folder _ none, _) :: (.value text, _) :: rest => general { s with folder := some text } rest
  | (.option .folder _ none, _) :: _ => .error .usage
  | (.option meaning spelling attached, _) :: rest => do
    let meanings ← flags generalOptions meaning spelling attached
    general (← s.apply meanings) rest

/-! ## Operands -/

/-- The meanings of the options of a query. -/
inductive Special where
  | help
  | withFee
  deriving DecidableEq, Repr

def helpOptions : Options Special := [("-h", .help), ("--help", .help)]

/-- What an operand has to be. -/
inductive Slot where
  | pool
  | coin
  | denom
  deriving DecidableEq, Repr

/-- An operand that was taken. -/
inductive Operand where
  | pool (n : Int)
  | coin (c : Coin)
  | denom (s : String)
  deriving DecidableEq, Repr

/-- Takes a text as an operand. -/
def Slot.take (slot : Slot) (s : String) : Except Stop Operand :=
  match slot with
  | .denom => .ok (.denom s)
  | .pool =>
    match Text.readInteger s with
    | .ok n => .ok (.pool n)
    | .error _ => .error .usage
  | .coin =>
    match Coin.ofText s with
    | .ok c => .ok (.coin c)
    | .error f => if f.kind = .value then .error .usage else .error (.failure f)

/-- What stood before a word. -/
inductive Before where
  | operand
  | divider
  | other
  deriving DecidableEq, Repr

/-- The operands and options taken so far. -/
structure Taken where
  operands : List Operand
  withFee : Bool
  spoiled : Bool
  deriving DecidableEq, Repr

def Taken.apply (t : Taken) : List Special → Except Stop Taken
  | [] => .ok t
  | .help :: _ => .error .help
  | .withFee :: r => Taken.apply { t with withFee := true } r

/-- Takes the words after the name of a query. -/
def operands (os : Options Special) (slots : List Slot) (t : Taken) (before : Before) :
    List (Word Special) → Except Stop Taken
  | [] => if slots = [] then .ok t else .error .usage
  | .divider :: rest =>
    if before = .operand then operands os slots t .operand rest
    else operands os slots { t with spoiled := t.spoiled || slots.isEmpty } .divider rest
  | .unknown :: rest => operands os slots { t with spoiled := true } .other rest
  | .option meaning spelling attached :: rest => do
    let meanings ← flags os meaning spelling attached
    operands os slots (← t.apply meanings) .other rest
  | .value s :: rest =>
    match slots with
    | [] => operands os [] { t with spoiled := true } .other rest
    | slot :: slots => do
      if s = "--" ∧ before ≠ .divider then Except.error (Stop.failure .noOperand)
      let o ← slot.take s
      operands os slots { t with operands := t.operands ++ [o] } .operand rest

/-- What can be asked for by name: the options, the operands, and the query they make. -/
structure Form where
  name : String
  options : Options Special
  slots : List Slot
  query : List Operand → Bool → Option (Int × Query)

def forms : List Form :=
  [⟨"show", helpOptions, [.pool], fun
    | [.pool n], _ => some (n, .show)
    | _, _ => none⟩,
   ⟨"quote-in", helpOptions, [.pool, .coin, .denom], fun
    | [.pool n, .coin c, .denom d], _ => some (n, .quoteIn c d)
    | _, _ => none⟩,
   ⟨"quote-out", helpOptions, [.pool, .coin, .denom], fun
    | [.pool n, .coin c, .denom d], _ => some (n, .quoteOut c d)
    | _, _ => none⟩,
   ⟨"spot-price", helpOptions ++ [("--with-fee", .withFee)], [.pool, .denom, .denom], fun
    | [.pool n, .denom q, .denom b], withFee => some (n, .spotPrice q b withFee)
    | _, _ => none⟩]

/-- Reads a command line. -/
def Arguments.ofWords (words : List String) : Except Stop Arguments := do
  let taken ← classifyAll generalOptions words
  let (settled, name, rest) ← general ⟨none, false, false⟩ (taken.zip words)
  match forms.find? (·.name == name) with
  | none => .error .usage
  | some form =>
    let t ← operands form.options form.slots ⟨[], false, false⟩ .other (← classifyAll form.options rest)
    match form.query t.operands t.withFee with
    | some (pool, query) =>
      if settled.spoiled || t.spoiled then .error .usage
      else return ⟨settled.folder, settled.verbose, pool, query⟩
    | none => .error .usage

end WeightedMarket.Command
