import DocQuery.Value.Basic
/-!
Queries in a wrapping: alone in an array, or alone under a key, which may have any number of marks
in front of it; objects taken apart into such queries; and a field tested against one item at a
time.
-/

namespace DocQuery.Query

/-- The query as the only item of an array. -/
def listed (query : Value) : Value := .arr [query]

/-- The query, or whatever is expected at the key, as the only member of an object. -/
def keyed (key : String) (query : Value) : Value := .obj [(key, query)]

/-- The members of an object, each alone in an item of an array. -/
def itemized (members : List (String × Value)) : Value :=
  .arr (members.map fun member => keyed member.1 member.2)

/-- A query for each item, which tests a field against it by the comparator of a name. -/
def perItem (path name : String) (items : List Value) : List Value :=
  items.map fun item => keyed path (keyed name item)

/-- The key with a number of marks in front of it. -/
def marked (marks : Nat) (key : String) : String :=
  String.ofList (List.replicate marks '!' ++ key.toList)

/-- The query in a number of wrappings, each around the one before. -/
def wrapped (wrap : Value → Value) (times : Nat) (query : Value) : Value :=
  Nat.repeat wrap times query

end DocQuery.Query
