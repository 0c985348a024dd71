import DocQuery.Query.Meaning
import DocQuery.Query.Reach
/-!
How many levels an evaluation goes down when nothing stops it: the deepest of the parts that it
visits before one of them fails or settles the whole.
-/

namespace DocQuery.Query

/-- The levels of two parts, the second of which is visited if the first leaves the whole open. -/
def Connective.levels (c : Connective) (first : Except MatchError Bool) (here further : Nat) : Nat :=
  match c, first with
  | .all, .ok true | .any, .ok false => max here further
  | _, _ => here

/-- Only the opposite of an implied test is further down than its comparator. -/
def Comparator.levels (comparator : Comparator) : Nat :=
  if comparator.relation = some .not then 1 else 0

def Leaf.levels : Leaf → Nat
  | scalar _ => 0
  | whole name _ => (Comparator.ofName name).levels
  | field path expectation =>
    match Comparator.ofExpectation path expectation with
    | .ok (comparator, _) => comparator.levels
    | .error _ => 0

/-- The levels below a key. `sub` is that of the expectation as a sub-query. -/
def Target.levels (expectation : Value) (sub : Connective → Nat) : Target → Nat
  | .parts c => sub c
  | .opposite => sub .all
  | .document name => (Leaf.whole name expectation).levels
  | .field path => (Leaf.field path expectation).levels

namespace Subject

mutual

/-- The levels of a query whose parts combine under a connective. -/
def levels (subject : Subject) (c : Connective) : Value → Nat
  | .obj members => membersLevels subject c members + 1
  | .arr items => itemsLevels subject c items + 1
  | _ => 1

/-- The levels of the members of an object, each of which is one level down. -/
def membersLevels (subject : Subject) (c : Connective) : List (String × Value) → Nat
  | [] => 0
  | (key, expectation) :: members =>
    c.levels
      (subject.reading.entryMeaning expectation (fun c => subject.reading.meaning c expectation)
        key.toList)
      ((MemberKey.ofKey key).target.levels expectation (fun c => levels subject c expectation) + 1)
      (membersLevels subject c members)

def itemsLevels (subject : Subject) (c : Connective) : List Value → Nat
  | [] => 0
  | item :: items =>
    c.levels (subject.reading.meaning .all item) (levels subject .all item)
      (itemsLevels subject c items)

end

end Subject

end DocQuery.Query
