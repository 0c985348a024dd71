import DocQuery.Query.Key
import DocQuery.Value.Basic
/-!
What a query comes down to: the leaves that are reached through connectives and negation, the fields
they ask about, and whether one of them asks about the whole document.
-/

namespace DocQuery.Query

/-- A part of a query that is not taken apart further. -/
inductive Leaf where
  /-- A sub-query that is neither an object nor an array. -/
  | scalar (query : Value)
  /-- A comparator for the whole document, and its operand. -/
  | whole (name : Marked) (operand : Value)
  /-- A field, and what is expected of it. -/
  | field (path : String) (expectation : Value)

/-- The leaf that a key leads to, unless it leads to sub-queries. -/
def Target.leaf? (expectation : Value) : Target → Option Leaf
  | .document name => some (.whole name expectation)
  | .field path => some (.field path expectation)
  | .parts _ | .opposite => none

mutual

/-- The leaves of a query. -/
def leaves : Value → List Leaf
  | .obj members => memberLeaves members
  | .arr items => itemLeaves items
  | query => [.scalar query]

def memberLeaves : List (String × Value) → List Leaf
  | [] => []
  | (key, expectation) :: members =>
    (match (MemberKey.ofKey key).target.leaf? expectation with
      | some leaf => [leaf]
      | none => leaves expectation) ++ memberLeaves members

def itemLeaves : List Value → List Leaf
  | [] => []
  | item :: items => leaves item ++ itemLeaves items

end

def Leaf.path? : Leaf → Option String
  | field path _ => some path
  | scalar _ | whole _ _ => none

def Leaf.asksWhole : Leaf → Bool
  | whole _ _ => true
  | scalar _ | field _ _ => false

/-- The paths of the fields that a query asks about. -/
def paths (query : Value) : List String := (leaves query).filterMap Leaf.path?

/-- The query has a comparator for the whole document. -/
def asksWhole (query : Value) : Bool := (leaves query).any Leaf.asksWhole

end DocQuery.Query
