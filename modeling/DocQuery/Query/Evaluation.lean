import DocQuery.Path
import DocQuery.Query.Comparator
/-!
The evaluation of a query on a document. Members of an object and items of an array combine under a
connective and are visited in order until one of them settles the whole.
-/

namespace DocQuery.Query

/-- What a query is asked about: a document, and how paths into it are written. -/
structure Subject where
  document : Document
  separator : Char

namespace Subject

/-- The value of a field, a missing one counting as null. -/
def fieldValue (subject : Subject) (path : String) : Value :=
  (subject.document.resolve subject.separator path).getD .null

def field (subject : Subject) (depth : Depth) (path : String) (expectation : Value) : Run Bool := do
  let (comparator, expected) ← Run.ofExcept (Comparator.ofExpectation path expectation)
  let found := (subject.document.resolve subject.separator path).isSome
  Run.report (.fieldResolved path comparator.name found depth.level)
  comparator.apply depth (subject.fieldValue path) expected

/-- A field is looked up only if the expectation stands for a comparator. -/
theorem field_eq (subject : Subject) (depth : Depth) (path : String) (expectation : Value) :
    subject.field depth path expectation =
      match Comparator.ofExpectation path expectation with
      | .error e => Run.fail e
      | .ok (comparator, expected) =>
        let found := (subject.document.resolve subject.separator path).isSome
        Run.report (.fieldResolved path comparator.name found depth.level) >>= fun _ =>
          comparator.apply depth (subject.fieldValue path) expected := by
  unfold field
  cases Comparator.ofExpectation path expectation <;> rfl

def whole (subject : Subject) (depth : Depth) (name : Marked) (expectation : Value) : Run Bool := do
  Run.report (.wholeDocument name.written depth.level)
  (Comparator.ofName name).apply depth (.document subject.document) expectation

/-- Evaluates what a key aims at. `sub` evaluates the expectation as a sub-query. -/
def aim (subject : Subject) (depth : Depth) (expectation : Value)
    (sub : Connective → Depth → Run Bool) : Target → Run Bool
  | .parts c => sub c depth
  | .opposite => (!·) <$> sub .all depth
  | .document name => subject.whole depth name expectation
  | .field path => subject.field depth path expectation

/-- Evaluates one member of a query object, one level down. -/
def entry (subject : Subject) (depth : Depth) (key : String) (expectation : Value)
    (sub : Connective → Depth → Run Bool) : Run Bool := do
  let depth ← Run.ofExcept depth.enter
  let key := MemberKey.ofKey key
  Run.reportIf key.negated (.negatedKey depth.level)
  let holds ← subject.aim depth expectation sub key.target
  return holds != key.negated

mutual

/-- Evaluates a query whose parts combine under a connective, one level down. -/
def evaluate (subject : Subject) (c : Connective) (depth : Depth) : Value → Run Bool
  | .obj members => do
    let depth ← Run.ofExcept depth.enter
    evaluateMembers subject c depth members
  | .arr items => do
    let depth ← Run.ofExcept depth.enter
    evaluateItems subject c depth items
  | query => do
    let _ ← Run.ofExcept depth.enter
    Run.fail (.queryShape query.kind)

/-- Evaluates members until one settles the whole, which is reported. -/
def evaluateMembers (subject : Subject) (c : Connective) (depth : Depth) :
    List (String × Value) → Run Bool
  | [] => pure !c.decisive
  | (key, expectation) :: members => do
    let holds ← subject.entry depth key expectation fun c depth =>
      evaluate subject c depth expectation
    if holds = c.decisive then do
      Run.report (.shortCircuit c key depth.level)
      return holds
    else evaluateMembers subject c depth members

/-- Evaluates items until one settles the whole. The parts of an item itself all have to hold. -/
def evaluateItems (subject : Subject) (c : Connective) (depth : Depth) : List Value → Run Bool
  | [] => pure !c.decisive
  | item :: items => do
    let holds ← evaluate subject .all depth item
    if holds = c.decisive then return holds
    else evaluateItems subject c depth items

end

end Subject

/-- A part that settles the whole has the result of the whole; otherwise the rest has it. -/
theorem Run.bind_stop_result (c : Connective) (first rest : Run Bool) {stop : Bool → Run Bool}
    (hstop : ∀ holds, (stop holds).result = .ok holds) :
    (first >>= fun holds => if holds = c.decisive then stop holds else rest).result =
      first.result >>= fun holds => if holds = c.decisive then .ok holds else rest.result := by
  have hnext (holds : Bool) : (if holds = c.decisive then stop holds else rest).result =
      if holds = c.decisive then .ok holds else rest.result := by
    split
    · exact hstop holds
    · rfl
  rw [Run.bind_result, funext hnext]

end DocQuery.Query
