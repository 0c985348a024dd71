import DocQuery.Value.Basic
import DocQuery.Value.Members
/-!
The strings in a value, keys among them, in the order of a walk that leaves no part of the value
before all of it has been seen, and that takes the members of an object by ascending keys.
-/

namespace DocQuery.Value

mutual

def strings : Value → List String
  | str s => [s]
  | arr items => itemStrings items
  | obj members =>
    (Members.ofList (memberStrings members)).flatMap fun member => member.1 :: member.2
  | null | bool _ | int _ | float _ => []

def itemStrings : List Value → List String
  | [] => []
  | item :: items => item.strings ++ itemStrings items

/-- The keys of an object, each with the strings in its value. -/
def memberStrings : List (String × Value) → List (String × List String)
  | [] => []
  | (key, value) :: members => (key, value.strings) :: memberStrings members

end

end DocQuery.Value
