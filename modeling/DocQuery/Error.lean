import DocQuery.Value.Basic
/-!
What can go wrong when a query is evaluated or a text is read, and the words for it.
-/

namespace DocQuery

/-- The numbers an ordering is taken in. -/
inductive NumericDomain where
  | int
  | float
  deriving DecidableEq, Repr

def NumericDomain.name : NumericDomain → String
  | .int => "int"
  | .float => "float"

/-- Why there is no answer. -/
inductive MatchError where
  /-- A query or sub-query is neither an object nor an array. -/
  | queryShape (found : Kind)
  /-- An expectation object for a field names several comparators. -/
  | multipleExpectations (field : String) (count : Nat)
  | notAMap (found : Kind)
  /-- A key in comparator position names none. -/
  | unknownComparator (name : String)
  /-- The actual operand of an ordering is not a number. -/
  | castFailed (domain : NumericDomain)
  /-- The expected operand of an ordering is not a number. -/
  | notOrdered (found : Kind)
  /-- The expected operand of a membership test is not an array. -/
  | notAnArray (found : Kind)
  | tooDeep (limit : Nat)
  | malformed
  deriving DecidableEq, Repr

def MatchError.message : MatchError → String
  | .queryShape found => "unknown query shape: expected object or array, got " ++ found.name
  | .multipleExpectations field count =>
    "multiple expectations for field '" ++ field ++ "': comparator object has " ++ toString count
      ++ " keys"
  | .notAMap found => "not a map: expected comparator object, got " ++ found.name
  | .unknownComparator name => "unknown comparator: '" ++ name ++ "'"
  | .castFailed domain => "casting actual value to " ++ domain.name ++ " failed"
  | .notOrdered found => "unsupported comparison type: " ++ found.name
  | .notAnArray found => "unknown expected type for $in: expected array, got " ++ found.name
  | .tooDeep limit => "query nesting exceeds maximum depth of " ++ toString limit
  | .malformed => "invalid JSON"

end DocQuery
