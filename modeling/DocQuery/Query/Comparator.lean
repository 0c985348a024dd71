import DocQuery.Query.Depth
import DocQuery.Query.Key
import DocQuery.Query.Operand
import DocQuery.Query.Trace
/-!
Comparators: tests of an actual operand, which comes from the document, against an expected one,
which comes from the query.
-/

namespace DocQuery.Query

/-- Whether an item equals the actual operand; the expected operand has to be an array. -/
def memberOf (actual : Operand) (expected : Value) : Except MatchError Bool :=
  match expected with
  | .arr items => .ok (items.any fun item => actual.equals item)
  | _ => .error (.notAnArray expected.kind)

namespace Test

def holds (test : Test) (actual : Operand) (expected : Value) : Except MatchError Bool :=
  match test with
  | is => .ok (actual.equals expected)
  | isIn => memberOf actual expected
  | gt => (actual.order expected).map (· == some .gt)
  | gte => (actual.order expected).map fun o => o == some .gt || o == some .eq
  | lt => (actual.order expected).map (· == some .lt)
  | lte => (actual.order expected).map fun o => o == some .lt || o == some .eq

theorem holds_document (test : Test) (members : Document) (expected : Value) :
    test.holds (.document members) expected = test.holds (.value (.obj members)) expected := by
  cases test <;>
    simp only [holds, memberOf, Operand.equals_document, Operand.order_document]

/-- What the tests of order say of operands that have one. -/
theorem holds_of_order (actual : Operand) {expected : Value} {outcome : Ordering}
    (h : actual.order expected = .ok (some outcome)) :
    gt.holds actual expected = .ok outcome.isGT ∧ gte.holds actual expected = .ok outcome.isGE ∧
      lt.holds actual expected = .ok outcome.isLT ∧
      lte.holds actual expected = .ok outcome.isLE := by
  simp only [holds, h, Except.map]
  cases outcome <;> exact ⟨rfl, rfl, rfl, rfl⟩

/-- The test implied by the expected operand: membership in an array, equality with all else. -/
def implied : Value → Test
  | .arr _ => isIn
  | _ => is

end Test

/--
A comparator as it stands in a query. Its name may turn out to name no relation, which is an error
only when the comparator is applied.
-/
structure Comparator where
  relation : Option Relation
  negated : Bool
  name : String
  deriving DecidableEq, Repr

namespace Comparator

/-- The comparator of a relation that is implied rather than written. -/
def implied (r : Relation) : Comparator := ⟨some r, false, r.name⟩

def ofName (name : Marked) : Comparator :=
  ⟨name.keyword.bind Keyword.relation?, name.negated, name.written⟩

/-- The comparator of an expectation object without members. -/
def unset : Comparator := ⟨none, false, ""⟩

/--
The comparator and the expected operand that an expectation for a field stands for. A scalar is
tested for equality, an array for membership, and an object names its comparator.
-/
def ofExpectation (field : String) (expectation : Value) :
    Except MatchError (Comparator × Value) :=
  match expectation with
  | .str _ | .int _ | .float _ => .ok (implied (.test .is), expectation)
  | .arr _ => .ok (implied (.test .isIn), expectation)
  | .obj [] => .ok (unset, expectation)
  | .obj [(name, operand)] => .ok (ofName (.ofKey name), operand)
  | .obj members => .error (.multipleExpectations field members.length)
  | .null | .bool _ => .error (.notAMap expectation.kind)

def conclude (r : Relation) (negated : Bool) (actual : Operand) (expected : Value)
    (holds : Bool) : Run Bool := do
  let result := holds != negated
  Run.report (.comparatorApplied r negated actual.display expected.display result)
  return result

def applyTest (test : Test) (negated : Bool) (actual : Operand) (expected : Value) :
    Run Bool := do
  let holds ← Run.ofExcept (test.holds actual expected)
  conclude (.test test) negated actual expected holds

/--
Applies a comparator, a negated one turning the result round. The opposite of the implied test is
one level further down, and that test reports first.
-/
def apply (comparator : Comparator) (depth : Depth) (actual : Operand) (expected : Value) :
    Run Bool :=
  match comparator.relation with
  | none => Run.fail (.unknownComparator comparator.name)
  | some (.test test) => applyTest test comparator.negated actual expected
  | some .not => do
    let _ ← Run.ofExcept depth.enter
    let holds ← applyTest (.implied expected) false actual expected
    conclude .not comparator.negated actual expected (!holds)

/-- Neither the result of a comparator nor its reports tell a document from the object that it would
make. -/
theorem apply_document (comparator : Comparator) (depth : Depth) (members : Document)
    (expected : Value) :
    comparator.apply depth (.document members) expected =
      comparator.apply depth (.value (.obj members)) expected := by
  unfold apply applyTest conclude
  simp only [Test.holds_document, Operand.display_document]

end Comparator

end DocQuery.Query
