import DocQuery.Value.Basic
/-!
Values without minus zero. The two zeros are equal as numbers, and nothing else that is equal differs.
-/

namespace DocQuery

def Double.unsignZero : Double → Double
  | .finite negative rank => .finite (negative && rank.val != 0) rank
  | .infinite negative => .infinite negative
  | .nan => .nan

namespace Value

mutual

/-- The value with zero in place of minus zero at every depth. -/
def unsignZeros : Value → Value
  | float x => float x.unsignZero
  | arr items => arr (unsignItems items)
  | obj members => obj (unsignMembers members)
  | null => null
  | bool b => bool b
  | int n => int n
  | str s => str s

def unsignItems : List Value → List Value
  | [] => []
  | item :: items => item.unsignZeros :: unsignItems items

def unsignMembers : List (String × Value) → List (String × Value)
  | [] => []
  | (key, value) :: members => (key, value.unsignZeros) :: unsignMembers members

end

end Value

end DocQuery
