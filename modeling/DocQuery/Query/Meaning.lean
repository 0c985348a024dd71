import DocQuery.Query.Evaluation
/-!
What a query means: its answer with no limit to the depth and no reports. Names and keys are read
mark by mark from the left, and each mark turns the answer round; the shape of an expectation says
which test it stands for. Where paths lead and how values compare is not said here: a query has a
meaning under every reading of these.
-/

namespace DocQuery.Query

/-- The first part settles the whole, or leaves it to the rest. -/
def Connective.combine (c : Connective) (first rest : Except MatchError Bool) :
    Except MatchError Bool :=
  match c, first with
  | .all, .ok true => rest
  | .any, .ok false => rest
  | _, settled => settled

def Connective.vacuous : Connective → Bool
  | .all => true
  | .any => false

/-- The relation of a name without marks. -/
def Relation.named? : String → Option Relation
  | "$is" => some (.test .is)
  | "$in" => some (.test .isIn)
  | "$not" => some .not
  | "$gt" => some (.test .gt)
  | "$gte" => some (.test .gte)
  | "$lt" => some (.test .lt)
  | "$lte" => some (.test .lte)
  | _ => none

/-- How an actual operand, which comes first, compares with an expected one. -/
structure Comparison where
  same : Value → Value → Bool
  order : Value → Value → Except MatchError (Option Ordering)

namespace Comparison

/-- What a relation says of two operands. -/
def verdict (comparison : Comparison) (actual expected : Value) :
    Relation → Except MatchError Bool
  | .test .is => .ok (comparison.same actual expected)
  | .test .isIn =>
    match expected with
    | .arr items => .ok (items.any fun item => comparison.same actual item)
    | other => .error (.notAnArray other.kind)
  | .not =>
    match expected with
    | .arr items => .ok !(items.any fun item => comparison.same actual item)
    | other => .ok !(comparison.same actual other)
  | .test .gt => (comparison.order actual expected).map (· == some .gt)
  | .test .gte => (comparison.order actual expected).map fun o => o == some .gt || o == some .eq
  | .test .lt => (comparison.order actual expected).map (· == some .lt)
  | .test .lte => (comparison.order actual expected).map fun o => o == some .lt || o == some .eq

/-- What the comparator written as `name` says of two operands. -/
def nameMeaning (comparison : Comparison) (name : String) (actual expected : Value) :
    List Char → Except MatchError Bool
  | '!' :: rest => (nameMeaning comparison name actual expected rest).map (!·)
  | base =>
    match Relation.named? (String.ofList base) with
    | some relation => comparison.verdict actual expected relation
    | none => .error (.unknownComparator name)

/-- What an expectation says of the value found at a path. -/
def expectationMeaning (comparison : Comparison) (path : String) (actual : Value) :
    Value → Except MatchError Bool
  | .arr items => .ok (items.any fun item => comparison.same actual item)
  | .obj [] => .error (.unknownComparator "")
  | .obj [(name, operand)] => comparison.nameMeaning name actual operand name.toList
  | .obj members => .error (.multipleExpectations path members.length)
  | .null => .error (.notAMap .null)
  | .bool _ => .error (.notAMap .boolean)
  | scalar => .ok (comparison.same actual scalar)

end Comparison

/-- What a query is read against: a document, the values of its fields, null for a missing one, and
how all these compare with what is expected of them. -/
structure Reading where
  document : Document
  field : String → Value
  comparison : Comparison

namespace Reading

/-- The meaning of one member. `sub` is the meaning of the expectation as a sub-query. -/
def entryMeaning (reading : Reading) (expectation : Value)
    (sub : Connective → Except MatchError Bool) : List Char → Except MatchError Bool
  | '!' :: key => (entryMeaning reading expectation sub key).map (!·)
  | key =>
    let name := String.ofList key
    if name = "$and" then sub .all
    else if name = "$or" then sub .any
    else if name = "$not" then (sub .all).map (!·)
    -- connectives are no comparators, so their names are taken before this
    else if key.head? = some '$' then
      reading.comparison.nameMeaning name (.obj reading.document) expectation key
    else reading.comparison.expectationMeaning name (reading.field name) expectation

mutual

/-- The meaning of a query whose parts combine under a connective. -/
def meaning (reading : Reading) (c : Connective) : Value → Except MatchError Bool
  | .obj members => membersMeaning reading c members
  | .arr items => itemsMeaning reading c items
  | query => .error (.queryShape query.kind)

/-- The members of an object one after the other, which is in ascending order of keys. -/
def membersMeaning (reading : Reading) (c : Connective) :
    List (String × Value) → Except MatchError Bool
  | [] => .ok c.vacuous
  | (key, expectation) :: members =>
    c.combine
      (reading.entryMeaning expectation (fun c => meaning reading c expectation) key.toList)
      (membersMeaning reading c members)

/-- The items of an array one after the other. The parts of an item itself all have to hold. -/
def itemsMeaning (reading : Reading) (c : Connective) : List Value → Except MatchError Bool
  | [] => .ok c.vacuous
  | item :: items => c.combine (meaning reading .all item) (itemsMeaning reading c items)

end

end Reading

/-- Values compared as an evaluation compares them. -/
def Comparison.byValue : Comparison := ⟨Value.equals, Value.order⟩

/-- Paths as an evaluation follows them, and its comparisons. -/
def Subject.reading (subject : Subject) : Reading :=
  ⟨subject.document, subject.fieldValue, .byValue⟩

end DocQuery.Query
