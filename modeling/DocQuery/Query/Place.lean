import DocQuery.Query.Key
import DocQuery.Query.Depth
import DocQuery.Value.Basic
/-!
Places in a query: items of arrays and members of objects, one inside the other.
-/

namespace DocQuery.Query

/-- The connective of the sub-query that a key leads to, if it leads to one. -/
def Target.connective? : Target → Option Connective
  | .parts c => some c
  | .opposite => some .all
  | .document _ | .field _ => none

/-- A place for a query, with everything that stands around it. -/
inductive Place where
  | whole
  | item (before : List Value) (inner : Place) (after : List Value)
  | member (before : List (String × Value)) (key : String) (inner : Place)
      (after : List (String × Value))

namespace Place

/-- The query with another one put into the place. -/
def fill (query : Value) : Place → Value
  | whole => query
  | item before inner after => .arr (before ++ inner.fill query :: after)
  | member before key inner after => .obj (before ++ (key, inner.fill query) :: after)

/--
The connective that combines the parts of a query in the place, and the depth that the query is
evaluated at. There is none if a limit is exceeded on the way, or if the place is in an operand.
-/
def reach : Place → Connective → Depth → Option (Connective × Depth)
  | whole, c, depth => some (c, depth)
  | item _ inner _, _, depth =>
    match depth.enter with
    | .ok below => inner.reach .all below
    | .error _ => none
  | member _ key inner _, _, depth =>
    match depth.enter >>= Depth.enter, (MemberKey.ofKey key).target.connective? with
    | .ok below, some c => inner.reach c below
    | _, _ => none

end Place

end DocQuery.Query
