import DocQuery.Query.Trace
/-!
The account of a trace: how many comparators have been announced and how many have given a result.
The opposite of an implied test gives two results for one announcement, and an error may leave an
announced comparator without one.
-/

namespace DocQuery.Query

/-- How often a comparator has been about to be applied. -/
def announced (events : List Event) : Nat :=
  events.countP fun
    | .fieldResolved _ _ _ _ | .wholeDocument _ _ => true
    | _ => false

/-- How often a comparator has given a result. -/
def applied (events : List Event) : Nat :=
  events.countP fun
    | .comparatorApplied _ _ _ _ _ => true
    | _ => false

/-- The reports of comparators that have given a result. -/
def comparisons (events : List Event) : List Event :=
  events.filter fun
    | .comparatorApplied _ _ _ _ _ => true
    | _ => false

/-- How often the opposite of an implied test has given a result. -/
def opposed (events : List Event) : Nat :=
  events.countP fun
    | .comparatorApplied .not _ _ _ _ => true
    | _ => false

/--
The opposite of an implied test comes right after that test, which is not negated and which has the
same operands, and its result is the other one unless it is negated itself.
-/
def Paired (events : List Event) : Prop :=
  ∀ before after negated actual expected result,
    events = before ++ .comparatorApplied .not negated actual expected result :: after →
    ∃ earlier test holds, (test = .is ∨ test = .isIn) ∧
      before = earlier ++ [.comparatorApplied (.test test) false actual expected holds] ∧
      result = ((!holds) != negated)

/-- How many comparators an evaluation can have announced in vain, by what it comes to. -/
def unanswered : Except MatchError Bool → List Nat
  | .ok _ => [0]
  | .error (.queryShape _) | .error (.multipleExpectations _ _) | .error (.notAMap _) => [0]
  | .error (.unknownComparator _) | .error (.castFailed _) => [1]
  | .error (.notOrdered _) | .error (.notAnArray _) => [1]
  -- a limit stops keys and connectives, and also an opposite that has just been announced
  | .error (.tooDeep _) => [0, 1]
  -- an evaluation reads no text
  | .error .malformed => []

end DocQuery.Query
