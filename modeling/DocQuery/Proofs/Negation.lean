import DocQuery.Proofs.Marks

/-! There are three ways to ask for the opposite of a test of a field: marks in front of the name of
the comparator, marks in front of the path, and the opposite of the implied test. They agree, errors
included, but the last takes a level more. -/

namespace DocQuery.Query

/-- Every keyword begins with the same sign. -/
theorem Keyword.head?_name (keyword : Keyword) : keyword.name.toList.head? = some '$' := by
  rcases keyword with c | ⟨test⟩ | _
  · cases c <;> rfl
  · cases test <;> rfl
  · rfl

/-- No keyword is a path. -/
theorem IsPath.ofName?_eq_none {path : String} (h : IsPath path) :
    Keyword.ofName? path = none := by
  cases hkeyword : Keyword.ofName? path with
  | none => rfl
  | some keyword =>
    have hhead := keyword.head?_name
    rw [← Keyword.ofName?_eq_some_iff.mp hkeyword] at hhead
    exact absurd hhead h.2

theorem IsPath.ofKey {path : String} (h : IsPath path) :
    MemberKey.ofKey path = ⟨.field path, false⟩ := by
  rw [MemberKey.ofKey_eq_unmark, MemberKey.unmark_of_head?_ne h.1, String.ofList_toList,
    Target.ofBase, h.ofName?_eq_none]
  exact congrArg (MemberKey.mk · false) (if_neg h.2)

/-- Marks in front of a name leave its keyword as it is. -/
theorem Marked.ofKey_marked (marks : Nat) (name : String) :
    Marked.ofKey (marked marks name) =
      { Marked.ofKey name with
        written := marked marks name
        negated := (Marked.ofKey name).negated != (marks % 2 == 1) } := by
  rw [Marked.ofKey_eq_unmark, Marked.ofKey_eq_unmark, MemberKey.unmark_marked]

namespace Comparator

/-- Marks in front of the name of a comparator turn what it says, and nothing else. A name without
a comparator is an exception, as its error is about the name with its marks. -/
theorem verdict_marked {name : String} {relation : Relation}
    (h : (Marked.ofKey name).keyword = some (.relation relation)) (marks : Nat)
    (actual operand : Value) :
    (ofName (.ofKey (marked marks name))).verdict actual operand =
      turn (marks % 2 == 1) ((ofName (.ofKey name)).verdict actual operand) := by
  rw [verdict_ofName, verdict_ofName, Marked.ofKey_marked]
  simp only [h]
  rw [turn_turn]

theorem levels_marked (marks : Nat) (name : String) :
    (ofName (.ofKey (marked marks name))).levels = (ofName (.ofKey name)).levels := by
  rw [Marked.ofKey_marked]
  rfl

/-- A scalar other than a truth value, or an array, stands for its implied test. -/
theorem ofExpectation_of_kind {expectation : Value}
    (h : expectation.kind ∈ [.string, .integer, .float, .array]) (path : String) :
    ofExpectation path expectation =
      .ok (implied (.test (Test.implied expectation)), expectation) := by
  cases expectation with
  | int | float | str | arr => rfl
  | null | bool | obj => simp [Value.kind] at h

end Comparator

namespace Subject

variable (subject : Subject) {path : String}

/-- A field behind marks takes a level for its object, one for its key, and its own. -/
theorem levels_field (h : IsPath path) (marks : Nat) (expectation : Value) :
    subject.levels .all (keyed (marked marks path) expectation) =
      (Leaf.field path expectation).levels + 2 := by
  rw [subject.levels_keyed, MemberKey.ofKey_marked, h.ofKey]
  rfl

theorem meaning_field (h : IsPath path) (marks : Nat) (expectation : Value) :
    subject.reading.meaning .all (keyed (marked marks path) expectation) =
      turn (marks % 2 == 1) (subject.leafMeaning (.field path expectation)) := by
  rw [subject.meaning_keyed, MemberKey.ofKey_marked, h.ofKey, Bool.false_bne]
  rfl

theorem levels_unmarked_field (h : IsPath path) (expectation : Value) :
    subject.levels .all (keyed path expectation) = (Leaf.field path expectation).levels + 2 := by
  have hfield := subject.levels_field h 0 expectation
  rw [marked_zero] at hfield
  exact hfield

theorem meaning_unmarked_field (h : IsPath path) (expectation : Value) :
    subject.reading.meaning .all (keyed path expectation) =
      subject.leafMeaning (.field path expectation) := by
  have hfield := subject.meaning_field h 0 expectation
  rw [marked_zero] at hfield
  exact hfield.trans (turn_false _)

theorem leafMeaning_named (path name : String) (operand : Value) :
    subject.leafMeaning (.field path (keyed name operand)) =
      (Comparator.ofName (.ofKey name)).verdict (subject.fieldValue path) operand :=
  Comparison.nameMeaning_toList _ _ _

/-- An expectation that stands for its implied test says what that test says. -/
theorem leafMeaning_implied {expectation : Value}
    (h : expectation.kind ∈ [.string, .integer, .float, .array]) (path : String) :
    subject.leafMeaning (.field path expectation) =
      (Test.implied expectation).holds (subject.fieldValue path) expectation := by
  have hnamed := Comparator.ofExpectation_of_kind h path
  have hverdict := Comparison.verdict_test (subject.fieldValue path) expectation
    (Test.implied expectation)
  calc subject.leafMeaning (.field path expectation)
      = (Comparator.implied (.test (Test.implied expectation))).verdict (subject.fieldValue path)
          expectation := by rw [leafMeaning, Comparison.expectationMeaning_eq, hnamed]
    _ = turn false (Comparison.byValue.verdict (subject.fieldValue path) expectation
          (.test (Test.implied expectation))) := rfl
    _ = (Test.implied expectation).holds (subject.fieldValue path) expectation := by
          rw [turn_false, hverdict]

/-- The comparator of negation says the opposite of the implied test. -/
theorem leafMeaning_not (path : String) (operand : Value) :
    subject.leafMeaning (.field path (keyed "$not" operand)) =
      turn true ((Test.implied operand).holds (subject.fieldValue path) operand) := by
  have hname : Marked.ofKey "$not" = ⟨"$not", "$not", some (.relation .not), false⟩ := by decide
  rw [leafMeaning_named, Comparator.verdict_ofName, hname]
  dsimp only
  rw [turn_false, Comparison.verdict_not, map_not]

theorem leafMeaning_mark_is (path : String) (operand : Value) :
    subject.leafMeaning (.field path (keyed "!$is" operand)) =
      turn true (Test.is.holds (subject.fieldValue path) operand) := by
  have hname : Marked.ofKey "!$is" = ⟨"!$is", "$is", some (.relation (.test .is)), true⟩ := by
    decide
  rw [leafMeaning_named, Comparator.verdict_ofName, hname]
  dsimp only
  rw [Comparison.verdict_test]

end Subject

/-- The name of a comparator takes marks like the path of its field does. The opposite of an implied
test is that test behind a mark, wherever the mark stands, at the price of a level. -/
theorem satisfied_negation_spellings {path : String} (hpath : IsPath path) (document : Document)
    (separator : Char) (limit : Nat) :
    (∀ (marks : Nat) (name : String) (relation : Relation) (operand : Value),
      (Marked.ofKey name).keyword = some (.relation relation) →
      satisfied ⟨limit, separator⟩ (keyed path (keyed (marked marks name) operand)) document =
        satisfied ⟨limit, separator⟩ (keyed (marked marks path) (keyed name operand)) document) ∧
    (∀ expectation : Value, expectation.kind ∈ [.string, .integer, .float, .array] →
      satisfied ⟨limit + 1, separator⟩ (keyed path (keyed "$not" expectation)) document =
        relimit (limit + 1)
          (satisfied ⟨limit, separator⟩ (keyed (marked 1 path) expectation) document)) ∧
    (∀ operand : Value, operand.kind ≠ .array →
      satisfied ⟨limit + 1, separator⟩ (keyed path (keyed "$not" operand)) document =
        relimit (limit + 1)
          (satisfied ⟨limit, separator⟩ (keyed path (keyed "!$is" operand)) document)) := by
  let subject : Subject := ⟨document, separator⟩
  have hlevels := subject.levels_unmarked_field hpath
  have hmeaning := subject.meaning_unmarked_field hpath
  refine ⟨?_, ?_, ?_⟩
  · -- the levels are the same on both sides, so no limit tells them apart
    intro marks name relation operand hname
    have hsameLevels : subject.levels .all (keyed path (keyed (marked marks name) operand)) =
        subject.levels .all (keyed (marked marks path) (keyed name operand)) := by
      rw [hlevels, subject.levels_field hpath]
      exact congrArg (· + 2) (Comparator.levels_marked marks name)
    have hsameMeaning :
        subject.reading.meaning .all (keyed path (keyed (marked marks name) operand)) =
        subject.reading.meaning .all (keyed (marked marks path) (keyed name operand)) := by
      rw [hmeaning, subject.meaning_field hpath, subject.leafMeaning_named,
        subject.leafMeaning_named, Comparator.verdict_marked hname]
    rw [satisfied_result, satisfied_result, hsameLevels, hsameMeaning]
  · -- a plain expectation has no level of its own, while the opposite of its test has one
    intro expectation hkind
    have hown : (Leaf.field path expectation).levels = 0 := by
      rw [Leaf.levels, Comparator.ofExpectation_of_kind hkind]
      rfl
    have hprice : subject.levels .all (keyed path (keyed "$not" expectation)) =
        subject.levels .all (keyed (marked 1 path) expectation) + 1 := by
      rw [hlevels, subject.levels_field hpath, hown]
      rfl
    have hsame : subject.reading.meaning .all (keyed path (keyed "$not" expectation)) =
        subject.reading.meaning .all (keyed (marked 1 path) expectation) := by
      rw [hmeaning, subject.meaning_field hpath, subject.leafMeaning_not,
        subject.leafMeaning_implied hkind]
      rfl
    exact satisfied_eq_of_same_meaning limit hprice hsame
  · intro operand hkind
    have himplied : Test.implied operand = .is := by
      cases operand with
      | arr items => exact absurd rfl hkind
      | null | bool | int | float | str | obj => rfl
    have hprice : subject.levels .all (keyed path (keyed "$not" operand)) =
        subject.levels .all (keyed path (keyed "!$is" operand)) + 1 := by
      rw [hlevels, hlevels]
      rfl
    have hsame : subject.reading.meaning .all (keyed path (keyed "$not" operand)) =
        subject.reading.meaning .all (keyed path (keyed "!$is" operand)) := by
      rw [hmeaning, hmeaning, subject.leafMeaning_not, subject.leafMeaning_mark_is, himplied]
    exact satisfied_eq_of_same_meaning limit hprice hsame

theorem satisfied_negation_spellings_nested :
    IsPath "a.b" ∧
    ((Marked.ofKey "$gt").keyword = some (.relation (.test .gt)) ∧
      satisfied ⟨2, '.'⟩ (keyed "a.b" (keyed (marked 3 "$gt") (.int 1)))
          [("a", .obj [("b", .int 2)])] =
        satisfied ⟨2, '.'⟩ (keyed (marked 3 "a.b") (keyed "$gt" (.int 1)))
          [("a", .obj [("b", .int 2)])]) ∧
    ((Value.arr [.int 1, .int 2]).kind ∈ [.string, .integer, .float, .array] ∧
      satisfied ⟨3, '.'⟩ (keyed "a.b" (keyed "$not" (.arr [.int 1, .int 2])))
          [("a", .obj [("b", .int 2)])] =
        relimit 3 (satisfied ⟨2, '.'⟩ (keyed (marked 1 "a.b") (.arr [.int 1, .int 2]))
          [("a", .obj [("b", .int 2)])])) ∧
    (Value.null.kind ≠ .array ∧
      satisfied ⟨3, '.'⟩ (keyed "a.b" (keyed "$not" .null)) [("a", .obj [("b", .int 2)])] =
        relimit 3 (satisfied ⟨2, '.'⟩ (keyed "a.b" (keyed "!$is" .null))
          [("a", .obj [("b", .int 2)])])) := by
  have hpath : IsPath "a.b" := by decide
  have hkeyword : (Marked.ofKey "$gt").keyword = some (.relation (.test .gt)) := by decide
  have hkind : (Value.arr [.int 1, .int 2]).kind ∈ [.string, .integer, .float, .array] := by decide
  have hnull : Value.null.kind ≠ .array := by decide
  obtain ⟨hmarks, hplain, hother⟩ := satisfied_negation_spellings hpath
    [("a", .obj [("b", .int 2)])] '.' 2
  exact ⟨hpath, ⟨hkeyword, hmarks 3 "$gt" (.test .gt) (.int 1) hkeyword⟩,
    ⟨hkind, hplain _ hkind⟩, ⟨hnull, hother _ hnull⟩⟩

example : satisfied ⟨2, '.'⟩ (keyed "a" (keyed (marked 3 "$lt") (.str "x"))) [] =
    .error (.notOrdered .string) := rfl

end DocQuery.Query
