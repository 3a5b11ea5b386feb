/-
  Settings of the market: how often an exact-out swap may raise its input, which entries of the
  journal are shown, and where pool documents are.

  Settings come from values or from variables of the environment.
-/
import WeightedMarket.Failure
import WeightedMarket.Path
import WeightedMarket.Table
import WeightedMarket.Text.Integer
import WeightedMarket.Text.UpperCase

namespace WeightedMarket

structure Settings where
  attempts : Int
  logLevel : String
  poolFolder : Option String
  deriving DecidableEq, Repr

namespace Settings

/-- The levels that settings may name. -/
def levels : List String := ["DEBUG", "INFO", "WARNING", "ERROR", "CRITICAL"]

/-- The levels that the journal knows. -/
def journalLevels : List String := levels ++ ["FATAL", "WARN", "NOTSET"]

def default : Settings := ⟨6, "INFO", none⟩

/-- Refuses a negative number of attempts, and a level that is none in any case. -/
def check (s : Settings) : Except Failure Unit := do
  require (decide (0 ≤ s.attempts)) (.negativeAttempts s.attempts)
  require (levels.contains (Text.upper s.logLevel)) (.unknownLevel s.logLevel)

/-- Settings whose rules hold. -/
def checked (s : Settings) : Except Failure Settings := do
  s.check
  return s

/-- The variables of an environment. -/
abbrev Environment : Type := List (String × String)

def Environment.get? (env : Environment) (name : String) : Option String :=
  (env.find? (·.1 == name)).map (·.2)

/-- Settings from an environment; a variable that is not set leaves the default. -/
def ofEnvironment (env : Environment) : Except Failure Settings := do
  let attempts ← match env.get? "GAMM_CONVERGE_MAX_ATTEMPTS" with
    | none => pure default.attempts
    | some text =>
      match Text.readInteger text with
      | .ok n => pure n
      | .error .form => refuse (.badInteger text)
      | .error (.length digits) => refuse (.longNumeral digits)
  let logLevel := Text.upper ((env.get? "GAMM_LOG_LEVEL").getD default.logLevel)
  let poolFolder := ((env.get? "GAMM_POOL_DIR").filter (· ≠ "")).map Path.shown
  checked ⟨attempts, logLevel, poolFolder⟩

/-- Refuses a level that the journal does not know. -/
def checkJournalLevel (level : String) : Except Failure Unit :=
  require (journalLevels.contains (Text.upper level)) (.unknownLevel level)

end Settings

end WeightedMarket
