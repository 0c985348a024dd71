/-!
The keywords of the query language: two connectives, negation, and six tests.
-/

namespace DocQuery.Query

/-- How the parts of a query combine: all of them have to hold, or any of them. -/
inductive Connective where
  | all
  | any
  deriving DecidableEq, Repr

/-- The result of one part that settles the whole; a query without parts has the other result. -/
def Connective.decisive : Connective → Bool
  | all => false
  | any => true

/-- A test of an actual operand against an expected one. -/
inductive Test where
  | is
  | isIn
  | gt
  | gte
  | lt
  | lte
  deriving DecidableEq, Repr

/-- What a comparator can do: a test, or the opposite of the test implied by its operand. -/
inductive Relation where
  | test (t : Test)
  | not
  deriving DecidableEq, Repr

inductive Keyword where
  | connective (c : Connective)
  | relation (r : Relation)
  deriving DecidableEq, Repr

def Connective.name : Connective → String
  | all => "$and"
  | any => "$or"

def Test.name : Test → String
  | is => "$is"
  | isIn => "$in"
  | gt => "$gt"
  | gte => "$gte"
  | lt => "$lt"
  | lte => "$lte"

def Relation.name : Relation → String
  | test t => t.name
  | not => "$not"

namespace Keyword

def name : Keyword → String
  | connective c => c.name
  | relation r => r.name

def all : List Keyword :=
  [connective .all, connective .any, relation .not, relation (.test .is), relation (.test .isIn),
    relation (.test .gt), relation (.test .gte), relation (.test .lt), relation (.test .lte)]

def ofName? (s : String) : Option Keyword := all.find? fun keyword => keyword.name == s

/-- The relation that a keyword names in comparator position; connectives name none there. -/
def relation? : Keyword → Option Relation
  | connective _ => none
  | relation r => some r

theorem ofName?_name (keyword : Keyword) : ofName? keyword.name = some keyword := by
  rcases keyword with c | ⟨t⟩ | _
  · cases c <;> decide
  · cases t <;> decide
  · decide

theorem name_of_ofName? {s : String} {keyword : Keyword} (h : ofName? s = some keyword) :
    keyword.name = s := by
  have hfound := List.find?_some h
  exact beq_iff_eq.mp hfound

end Keyword

end DocQuery.Query
