/-
  Words of a command line.

  A word is an option if it starts with a dash and is known; a long option may be cut short as long
  as only one option starts with it, and its value may be attached by an equals sign.  Short options
  that take no value may be run together (`-vh`).  A single dash, an empty word, a negative number
  and an unknown word with a blank in it are values, and so is everything after the first word `--`,
  the divider.

  How words are taken depends on the options alone, given as pairs of a spelling and a meaning.
-/
import WeightedMarket.Failure
import WeightedMarket.Text.Digit

namespace WeightedMarket.Command

/-- Why a command line leads to no request. -/
inductive Stop where
  /-- It does not have the form of one. -/
  | usage
  /-- It asks for help. -/
  | help
  | failure (f : Failure)
  deriving DecidableEq, Repr

/-- What a word is taken for. -/
inductive Word (μ : Type) where
  | value (s : String)
  | divider
  /-- An option in its full spelling, with the text attached to it. -/
  | option (meaning : μ) (spelling : String) (attached : Option String)
  | unknown
  deriving DecidableEq, Repr

/-- Spellings of options and their meanings. -/
abbrev Options (μ : Type) : Type := List (String × μ)

variable {μ : Type}

/-- The meaning of a full spelling. -/
def Options.meaning? (os : Options μ) (spelling : String) : Option μ :=
  (os.find? (·.1 == spelling)).map (·.2)

/-- A negative number, possibly with decimals: a dash and digits of any script. -/
def looksNegative (cs : List Char) : Bool :=
  let isDigit (c : Char) : Bool := (Text.digit? c).isSome
  let run (ds : List Char) : Bool :=
    let tail := ds.dropWhile isDigit
    (ds.head?.map isDigit).getD false && (tail == [] || tail == ['\n'])
  match cs with
  | '-' :: r =>
    run r || match r.dropWhile isDigit with
      | '.' :: decimals => run decimals
      | _ => false
  | _ => false

/-- The text before the first equals sign and the text after it. -/
def attachment? (s : String) : Option (String × String) :=
  let cs := s.toList
  match cs.dropWhile (· != '=') with
  | _ :: r => some (String.ofList (cs.takeWhile (· != '=')), String.ofList r)
  | [] => none

/-- The options that a word may stand for although it is not a full spelling. -/
def candidates (os : Options μ) (s : String) : List (Word μ) :=
  match s.toList with
  | '-' :: '-' :: _ =>
    let (start, attached) := match attachment? s with
      | some (start, text) => (start, some text)
      | none => (s, none)
    os.filterMap fun o => if o.1.startsWith start then some (.option o.2 o.1 attached) else none
  | a :: b :: r =>
    os.filterMap fun o =>
      if o.1 = String.ofList [a, b] then some (.option o.2 o.1 (some (String.ofList r)))
      else if o.1.startsWith s then some (.option o.2 o.1 none)
      else none
  | _ => []

/-- What a word before the divider is taken for. -/
def classify (os : Options μ) (s : String) : Except Stop (Word μ) :=
  let spelled? := (os.meaning? s).map fun m => Word.option m s none
  let attached? := do
    let (spelling, text) ← attachment? s
    let m ← os.meaning? spelling
    return Word.option m spelling (some text)
  if !s.startsWith "-" then .ok (.value s)
  else
    match spelled? with
    | some w => .ok w
    | none =>
      if s = "-" then .ok (.value s)
      else
        match attached? with
        | some w => .ok w
        | none =>
          match candidates os s with
          | [w] => .ok w
          | _ :: _ :: _ => .error .usage
          | [] =>
            if looksNegative s.toList || s.toList.contains ' ' then .ok (.value s) else .ok .unknown

/-- What the words of a command line are taken for. -/
def classifyAll (os : Options μ) : List String → Except Stop (List (Word μ))
  | [] => .ok []
  | "--" :: rest => .ok (.divider :: rest.map .value)
  | s :: rest => do
    let w ← classify os s
    let ws ← classifyAll os rest
    return w :: ws

/-- The meanings of an option that takes no value; letters run together with a short option are
short options as well. -/
def flags (os : Options μ) (meaning : μ) (spelling : String) (attached : Option String) :
    Except Stop (List μ) :=
  let rec letters : List Char → Except Stop (List μ)
    | [] => .ok []
    | c :: r =>
      match os.meaning? (String.ofList ['-', c]) with
      | some m => (letters r).map (m :: ·)
      | none => .error .usage
  match attached with
  | none => .ok [meaning]
  | some s =>
    if spelling.startsWith "--" || s = "" then .error .usage
    else (letters s.toList).map (meaning :: ·)

end WeightedMarket.Command
