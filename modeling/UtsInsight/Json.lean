/-!
# JSON values

Messages and settings are JSON. A number is kept as an integer if it was written as one and is
otherwise only known to be a fraction, since nothing here reads or writes fractions. The fields of an
object keep their order, and of two fields with one name the later counts.
-/

namespace UtsInsight

inductive Json where
  | null
  | bool (value : Bool)
  | integer (value : Int)
  | fraction
  | string (value : String)
  | array (items : List Json)
  | object (fields : List (String × Json))
  deriving Inhabited, Repr

namespace Json

/-- The value of a field, if the value is an object that has it. -/
def field? (value : Json) (name : String) : Option Json :=
  match value with
  | .object fields => fields.reverse.lookup name
  | _ => none

def asBool? : Json → Option Bool
  | .bool b => some b
  | _ => none

def asInt? : Json → Option Int
  | .integer n => some n
  | _ => none

def asNat? : Json → Option Nat
  | .integer n => if 0 ≤ n then some n.toNat else none
  | _ => none

def asString? : Json → Option String
  | .string s => some s
  | _ => none

def asArray? : Json → Option (List Json)
  | .array items => some items
  | _ => none

/-- The first natural number that does not fit into 64 bits. -/
def wordLimit : Nat :=
  0x10000000000000000

/-- A natural number of 64 bits. -/
def asWord? (value : Json) : Option Nat :=
  value.asNat?.filter (· < wordLimit)

/-- A value that is there and not null. -/
def given? (value : Json) (name : String) : Option Json :=
  match value.field? name with
  | some .null => none
  | found => found

end Json

end UtsInsight
