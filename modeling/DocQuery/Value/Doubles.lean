import DocQuery.Value.Basic
/-!
The doubles in a value, at every depth and in the order in which they are written.
-/

namespace DocQuery.Value

mutual

def doubles : Value → List Double
  | float x => [x]
  | arr items => itemDoubles items
  | obj members => memberDoubles members
  | null | bool _ | int _ | str _ => []

def itemDoubles : List Value → List Double
  | [] => []
  | item :: items => item.doubles ++ itemDoubles items

def memberDoubles : List (String × Value) → List Double
  | [] => []
  | (_, value) :: members => value.doubles ++ memberDoubles members

end

end DocQuery.Value
