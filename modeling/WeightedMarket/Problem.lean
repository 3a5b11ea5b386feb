/-
  What can be wrong with the fields of a document.

  A document is checked field by field and every problem is reported, each with the path of field
  names and list positions that leads to it.
-/

namespace WeightedMarket

/-- One step of the path to a value inside a document. -/
inductive PathStep where
  | field (name : String)
  | index (position : Nat)
  deriving DecidableEq, Repr

/-- The kinds of problems. -/
inductive ProblemKind where
  | unreadable
  | notAnObject
  | missing
  | notAList
  | tooShort
  | notText
  | emptyText
  | notAnInteger
  | integerText
  | longInteger
  | fractional
  | notFinite
  | belowMinimum
  | aboveMaximum
  /-- The value was refused by the rule for amounts, with these words. -/
  | badValue (words : String)
  | notAMoment
  | momentText
  deriving DecidableEq, Repr

/-- The name of a kind in reports. -/
def ProblemKind.name : ProblemKind → String
  | .unreadable => "json_invalid"
  | .notAnObject => "model_type"
  | .missing => "missing"
  | .notAList => "list_type"
  | .tooShort => "too_short"
  | .notText => "string_type"
  | .emptyText => "string_too_short"
  | .notAnInteger => "int_type"
  | .integerText => "int_parsing"
  | .longInteger => "int_parsing_size"
  | .fractional => "int_from_float"
  | .notFinite => "finite_number"
  | .belowMinimum => "greater_than_equal"
  | .aboveMaximum => "less_than_equal"
  | .badValue _ => "value_error"
  | .notAMoment => "datetime_type"
  | .momentText => "datetime_from_date_parsing"

/-- A problem and where it is. -/
structure Problem where
  path : List PathStep
  kind : ProblemKind
  deriving DecidableEq, Repr

/-- The problem one level further out. -/
def Problem.under (step : PathStep) (p : Problem) : Problem := { p with path := step :: p.path }

end WeightedMarket
