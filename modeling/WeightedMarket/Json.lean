/-
  JSON values.

  Integers are kept apart from numbers written with a point or an exponent, which stay exact
  decimal values.  The members of an object are kept in their order; a look-up takes the last
  member of a name.
-/
import WeightedMarket.Decimal

namespace WeightedMarket

/-- A number written with a point or an exponent, or one of the three words for what is not finite. -/
inductive JsonReal where
  | finite (value : Decimal)
  | infinite (negative : Bool)
  | notANumber
  deriving DecidableEq, Repr

/-- A JSON value. -/
inductive Json where
  | null
  | bool (b : Bool)
  | int (n : Int)
  | real (x : JsonReal)
  | text (s : String)
  | list (items : List Json)
  | object (members : List (String × Json))
  deriving Inhabited, Repr

namespace Json

/-- The last member of a name. -/
def last? (members : List (String × Json)) (name : String) : Option Json :=
  (members.reverse.find? (·.1 == name)).map (·.2)

/-- The member of an object; nothing if the value is no object. -/
def member? (v : Json) (name : String) : Option Json :=
  match v with
  | .object members => last? members name
  | _ => none

/-- The type of a value, as messages name it. -/
def typeName : Json → String
  | .null => "NoneType"
  | .bool _ => "bool"
  | .int _ => "int"
  | .real _ => "float"
  | .text _ => "str"
  | .list _ => "list"
  | .object _ => "dict"

end Json

end WeightedMarket
