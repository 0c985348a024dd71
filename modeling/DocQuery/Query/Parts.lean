import DocQuery.Query.Evaluation
import DocQuery.Value.Members
/-!
The parts of a query: the members of an object or the items of an array, one after the other, of
which the first that leaves nothing open decides.
-/

namespace DocQuery.Query

namespace Subject

/-- The run of a member at the depth of its object. -/
def memberRun (subject : Subject) (depth : Depth) (member : String × Value) : Run Bool :=
  subject.entry depth member.1 member.2 fun c below => subject.evaluate c below member.2

/-- The runs of all parts, at the depth of the object or array that they are the parts of. -/
def partRuns (subject : Subject) (depth : Depth) : Value → List (Run Bool)
  | .obj members => members.map (subject.memberRun depth)
  | .arr items => items.map (subject.evaluate .all depth)
  | _ => []

end Subject

/-- One part comes to the answer, and all before it leave the whole open. -/
def Connective.Decided (c : Connective) (parts : List (Run Bool))
    (answer : Except MatchError Bool) : Prop :=
  ∃ before part after, parts = before ++ part :: after ∧
    (∀ earlier ∈ before, earlier.result = .ok (!c.decisive)) ∧ part.result = answer

/-- Both queries have the same parts up to one that does not leave the whole open. -/
inductive SameUntilDecided (subject : Subject) (c : Connective) (depth : Depth) :
    Value → Value → Prop where
  | items {items : List Value} {item : Value} (rest others : List Value) :
    item ∈ items → (subject.evaluate .all depth item).result ≠ .ok (!c.decisive) →
    SameUntilDecided subject c depth (.arr (items ++ rest)) (.arr (items ++ others))
  /-- The members of an object stand in order, so only those under greater keys may differ. -/
  | members {members others : List (String × Value)} {key : String} {expectation : Value} :
    Members.Ascending members → Members.Ascending others →
    (∀ k, k ≤ key → members.lookup k = others.lookup k) →
    members.lookup key = some expectation →
    (subject.memberRun depth (key, expectation)).result ≠ .ok (!c.decisive) →
    SameUntilDecided subject c depth (.obj members) (.obj others)

end DocQuery.Query
