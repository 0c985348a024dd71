import DocQuery.Query.Meaning
import DocQuery.Query.Reach

/-! Names and keys read mark by mark say the same as names and keys whose marks are counted. -/

namespace DocQuery.Query

theorem Keyword.ofName?_eq_some_iff {s : String} {keyword : Keyword} :
    Keyword.ofName? s = some keyword ↔ s = keyword.name := by
  constructor
  · intro h
    exact (Keyword.name_of_ofName? h).symm
  · intro h
    rw [h]
    exact Keyword.ofName?_name keyword

theorem Relation.named?_eq (s : String) :
    Relation.named? s = (Keyword.ofName? s).bind Keyword.relation? := by
  cases h : Keyword.ofName? s with
  | some keyword =>
    rw [Keyword.ofName?_eq_some_iff.mp h]
    rcases keyword with c | ⟨t⟩ | _
    · cases c <;> rfl
    · cases t <;> rfl
    · rfl
  | none =>
    -- then no name of a relation is `s`
    have hne (keyword : Keyword) : s ≠ keyword.name := by
      intro he
      rw [Keyword.ofName?_eq_some_iff.mpr he] at h
      exact Option.some_ne_none _ h
    unfold Relation.named?
    split
    · exact absurd rfl (hne (.relation (.test .is)))
    · exact absurd rfl (hne (.relation (.test .isIn)))
    · exact absurd rfl (hne (.relation .not))
    · exact absurd rfl (hne (.relation (.test .gt)))
    · exact absurd rfl (hne (.relation (.test .gte)))
    · exact absurd rfl (hne (.relation (.test .lt)))
    · exact absurd rfl (hne (.relation (.test .lte)))
    · rfl

/-- Each of the marks that stand before a text is one byte of it. -/
theorem Marked.utf8ByteSize_eq_marks_add (cs : List Char) :
    (String.ofList cs).utf8ByteSize = (cs.takeWhile (· == '!')).length +
      (String.ofList (cs.dropWhile (· == '!'))).utf8ByteSize := by
  induction cs with
  | nil => rfl
  | cons c cs ih =>
    by_cases hc : c = '!'
    · have hmark : '!'.utf8Size = 1 := rfl
      have htake : ('!' :: cs).takeWhile (· == '!') = '!' :: cs.takeWhile (· == '!') := rfl
      have hdrop : ('!' :: cs).dropWhile (· == '!') = cs.dropWhile (· == '!') := rfl
      rw [hc, String.ofList_cons, String.utf8ByteSize_append, String.utf8ByteSize_singleton, ih,
        htake, hdrop, List.length_cons, hmark]
      omega
    · have hne : (c == '!') = false := beq_eq_false_iff_ne.mpr hc
      rw [List.takeWhile_cons, List.dropWhile_cons, hne]
      exact (Nat.zero_add _).symm

/-- Counting the bytes of the marks finds what taking the marks away one at a time does. -/
theorem Marked.ofKey_eq_unmark (key : String) :
    Marked.ofKey key =
      { written := key
        base := String.ofList (MemberKey.unmark key.toList).2
        keyword := Keyword.ofName? (String.ofList (MemberKey.unmark key.toList).2)
        negated := (MemberKey.unmark key.toList).1 } := by
  have hbytes := utf8ByteSize_eq_marks_add key.toList
  rw [String.ofList_toList] at hbytes
  have hmarks : key.utf8ByteSize -
      (String.ofList (key.toList.dropWhile (· == '!'))).utf8ByteSize =
        (key.toList.takeWhile (· == '!')).length := by omega
  rw [MemberKey.unmark_eq]
  simp only [Marked.ofKey, hmarks]

/-- An answer turned round by every mark. -/
def turn (negated : Bool) (answer : Except MatchError Bool) : Except MatchError Bool :=
  answer.map (· != negated)

@[simp] theorem turn_ok (negated holds : Bool) : turn negated (.ok holds) = .ok (holds != negated) := rfl

@[simp] theorem turn_error (negated : Bool) (e : MatchError) : turn negated (.error e) = .error e := rfl

@[simp] theorem turn_false (answer : Except MatchError Bool) : turn false answer = answer := by
  cases answer <;> simp

theorem map_not_turn (negated : Bool) (answer : Except MatchError Bool) :
    (turn negated answer).map (!·) = turn (!negated) answer := by
  cases answer with
  | error e => rfl
  | ok holds => cases holds <;> cases negated <;> rfl

theorem map_not (answer : Except MatchError Bool) : answer.map (!·) = turn true answer := by
  have hturn := map_not_turn false answer
  rw [turn_false] at hturn
  exact hturn

theorem turn_turn (first second : Bool) (answer : Except MatchError Bool) :
    turn second (turn first answer) = turn (first != second) answer := by
  cases answer with
  | error e => rfl
  | ok holds => cases holds <;> cases first <;> cases second <;> rfl

/-- What a comparator says of two operands. -/
def Comparator.verdict (comparator : Comparator) (actual expected : Value) :
    Except MatchError Bool :=
  match comparator.relation with
  | some relation => turn comparator.negated (Comparison.byValue.verdict actual expected relation)
  | none => .error (.unknownComparator comparator.name)

namespace Comparison

theorem nameMeaning_eq (name : String) (actual expected : Value) (cs : List Char) :
    byValue.nameMeaning name actual expected cs =
      Comparator.verdict
        ⟨Relation.named? (String.ofList (MemberKey.unmark cs).2), (MemberKey.unmark cs).1, name⟩
        actual expected := by
  fun_induction nameMeaning byValue name actual expected cs with
  | case1 rest ih =>
    rw [ih]
    simp only [Comparator.verdict, MemberKey.unmark]
    split
    · rw [map_not_turn]
    · rfl
  | case2 base hne relation hrelation =>
    rw [MemberKey.unmark_of_ne hne]
    simp [Comparator.verdict, hrelation]
  | case3 base hne hrelation =>
    rw [MemberKey.unmark_of_ne hne]
    simp [Comparator.verdict, hrelation]

/-- A name in comparator position means what the comparator that it names says. -/
theorem nameMeaning_toList (name : String) (actual expected : Value) :
    byValue.nameMeaning name actual expected name.toList =
      (Comparator.ofName (.ofKey name)).verdict actual expected := by
  rw [nameMeaning_eq, Relation.named?_eq, Comparator.ofName, Marked.ofKey_eq_unmark]

/-- The shape of an expectation says which comparator it stands for. -/
theorem expectationMeaning_eq (path : String) (actual expectation : Value) :
    byValue.expectationMeaning path actual expectation =
      match Comparator.ofExpectation path expectation with
      | .ok (comparator, operand) => comparator.verdict actual operand
      | .error e => .error e := by
  cases expectation with
  | null | bool => rfl
  | int | float | str =>
    simp [expectationMeaning, Comparator.ofExpectation, Comparator.verdict, Comparator.implied,
      verdict, byValue]
  | arr =>
    simp [expectationMeaning, Comparator.ofExpectation, Comparator.verdict, Comparator.implied,
      verdict, byValue]
  | obj members =>
    rcases members with _ | ⟨⟨name, operand⟩, _ | ⟨second, rest⟩⟩
    · rfl
    · exact nameMeaning_toList _ _ _
    · rfl

end Comparison

namespace Subject

def leafMeaning (subject : Subject) : Leaf → Except MatchError Bool
  | .scalar query => .error (.queryShape query.kind)
  | .whole name operand => (Comparator.ofName name).verdict (.obj subject.document) operand
  | .field path expectation =>
    Comparison.byValue.expectationMeaning path (subject.fieldValue path) expectation

/-- The meaning of what a key aims at. -/
def targetMeaning (subject : Subject) (expectation : Value)
    (sub : Connective → Except MatchError Bool) : Target → Except MatchError Bool
  | .parts c => sub c
  | .opposite => (sub .all).map (!·)
  | .document name => subject.leafMeaning (.whole name expectation)
  | .field path => subject.leafMeaning (.field path expectation)

theorem entryMeaning_base (subject : Subject) (expectation : Value)
    (sub : Connective → Except MatchError Bool) {key : List Char}
    (hne : ∀ rest, key ≠ '!' :: rest) :
    subject.reading.entryMeaning expectation sub key =
      subject.targetMeaning expectation sub (.ofBase (String.ofList key)) := by
  unfold Reading.entryMeaning
  split
  · exact absurd rfl (hne _)
  · dsimp only
    generalize hname : String.ofList key = name
    have hkey : name.toList = key := by rw [← hname, String.toList_ofList]
    generalize htarget : Target.ofBase name = target
    unfold Target.ofBase at htarget
    rw [hkey] at htarget
    split at htarget
    -- the connectives and negation come before all other keywords
    · rename_i c hc
      rw [← htarget, Keyword.ofName?_eq_some_iff.mp hc]
      cases c <;> rfl
    · rename_i hc
      rw [← htarget, Keyword.ofName?_eq_some_iff.mp hc]
      rfl
    · rename_i hconnective hnot
      have hand : name ≠ "$and" := by
        intro h
        exact hconnective .all (Keyword.ofName?_eq_some_iff.mpr h)
      have hor : name ≠ "$or" := by
        intro h
        exact hconnective .any (Keyword.ofName?_eq_some_iff.mpr h)
      have hnegation : name ≠ "$not" := by
        intro h
        exact hnot (Keyword.ofName?_eq_some_iff.mpr h)
      simp only [← htarget, hand, hor, hnegation, if_false]
      split
      · rw [← hkey]
        exact Comparison.nameMeaning_toList _ _ _
      · rfl

/-- A key means what it aims at, turned round as often as it has marks. -/
theorem entryMeaning_eq (subject : Subject) (expectation : Value)
    (sub : Connective → Except MatchError Bool) (key : List Char) :
    subject.reading.entryMeaning expectation sub key =
      turn (MemberKey.unmark key).1
        (subject.targetMeaning expectation sub
          (.ofBase (String.ofList (MemberKey.unmark key).2))) := by
  fun_induction MemberKey.unmark key with
  | case1 cs negated rest hrest ih =>
    simp only [hrest] at ih
    rw [Reading.entryMeaning, ih, map_not_turn]
  | case2 cs hne =>
    rw [turn_false]
    exact subject.entryMeaning_base expectation sub hne

theorem entryMeaning_toList (subject : Subject) (expectation : Value)
    (sub : Connective → Except MatchError Bool) (key : String) :
    subject.reading.entryMeaning expectation sub key.toList =
      turn (MemberKey.ofKey key).negated
        (subject.targetMeaning expectation sub (MemberKey.ofKey key).target) :=
  subject.entryMeaning_eq expectation sub key.toList

end Subject

end DocQuery.Query
