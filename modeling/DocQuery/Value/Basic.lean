import DocQuery.Double.Basic
/-!
Values: the one data model of queries and documents. An object is its list of members, kept in
ascending order of keys by everything that builds one.
-/

namespace DocQuery

/-- A JSON-like value whose numbers are either 64-bit integers or doubles. -/
inductive Value where
  | null
  | bool (b : Bool)
  | int (n : Int64)
  | float (x : Double)
  | str (s : String)
  | arr (items : List Value)
  | obj (members : List (String × Value))
  deriving Inhabited

abbrev Document := List (String × Value)

inductive Kind where
  | null
  | boolean
  | integer
  | float
  | string
  | array
  | object
  deriving DecidableEq, Repr

def Kind.name : Kind → String
  | .null => "null"
  | .boolean => "boolean"
  | .integer => "integer"
  | .float => "float"
  | .string => "string"
  | .array => "array"
  | .object => "object"

namespace Value

def kind : Value → Kind
  | null => .null
  | bool _ => .boolean
  | int _ => .integer
  | float _ => .float
  | str _ => .string
  | arr _ => .array
  | obj _ => .object

mutual

/-- How deep arrays and objects nest: a scalar has height zero. -/
def height : Value → Nat
  | arr items => heightItems items + 1
  | obj members => heightMembers members + 1
  | null | bool _ | int _ | float _ | str _ => 0

def heightItems : List Value → Nat
  | [] => 0
  | item :: items => max item.height (heightItems items)

def heightMembers : List (String × Value) → Nat
  | [] => 0
  | (_, value) :: members => max value.height (heightMembers members)

end

end Value

end DocQuery
