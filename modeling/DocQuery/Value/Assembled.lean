import DocQuery.Value.Basic
import DocQuery.Value.Members
/-!
Values put together from lists of entries, which may be in any order and have several entries under
one key.
-/

namespace DocQuery

namespace Value

mutual

/-- The value with every object built from the entries that are listed for it. -/
def assembled : Value → Value
  | arr items => arr (assembledItems items)
  | obj entries => obj (Members.ofList (assembledEntries entries))
  | null => null
  | bool b => bool b
  | int n => int n
  | float x => float x
  | str s => str s

def assembledItems : List Value → List Value
  | [] => []
  | item :: items => item.assembled :: assembledItems items

def assembledEntries : List (String × Value) → List (String × Value)
  | [] => []
  | (key, value) :: entries => (key, value.assembled) :: assembledEntries entries

end

end Value

/-- The document that entries make. -/
def Document.assembled (entries : List (String × Value)) : Document :=
  Members.ofList (Value.assembledEntries entries)

end DocQuery
