import DocQuery.Proofs.Membership

/-! The four tests of order ask for one thing, the outcome of comparing a field with an operand. An
error is the error of all of them, an outcome makes exactly one of less, equal and greater true, and
operands without an order make every test false: behind a mark, greater is then true while less or
equal is not. -/

namespace DocQuery

namespace Double

/-- Everything but NaN has a value, and values have an order. -/
theorem units?_eq_none_iff (x : Double) : x.units? = none ↔ x = nan := by
  cases x with
  | nan => exact iff_of_true rfl rfl
  | infinite negative => exact iff_of_false nofun nofun
  | finite negative rank => exact iff_of_false nofun nofun

theorem compare?_eq_none_iff (x y : Double) : x.compare? y = none ↔ x = nan ∨ y = nan := by
  rw [← units?_eq_none_iff, ← units?_eq_none_iff]
  unfold compare?
  cases x.units? with
  | none => exact iff_of_true rfl (.inl rfl)
  | some units =>
    cases y.units? with
    | none => exact iff_of_true rfl (.inr rfl)
    | some others => exact iff_of_false nofun nofun

/-- An integer has a nearest double, even if that is infinite. -/
theorem ofInt_ne_nan (n : Int) : ofInt n ≠ nan := by
  unfold ofInt ofRatio ofRank
  split <;> nofun

end Double

namespace Value

/-- Operands of an ordering are without an order in the domain of doubles alone, and only if one of
them is NaN. -/
theorem order_eq_none_iff (actual expected : Value) :
    actual.order expected = .ok none ↔
      expected.kind = .float ∧ actual.kind ∈ [.integer, .float] ∧
        (actual = .float .nan ∨ expected = .float .nan) := by
  cases expected with
  | float y =>
    cases actual with
    | int n =>
      have hcompare := (Double.ofInt n.toInt).compare?_eq_none_iff y
      simp [order, toDouble?, hcompare, Double.ofInt_ne_nan, kind]
    | float x =>
      have hcompare := x.compare?_eq_none_iff y
      simp [order, toDouble?, hcompare, kind]
    | null | bool | str | arr | obj => simp [order, toDouble?, kind]
  | int n =>
    -- in the domain of integers NaN counts as zero
    cases hactual : actual.toInt? <;> simp [order, hactual, kind]
  | null | bool | str | arr | obj => simp [order, kind]

end Value

namespace Query

/-- A test of order sees nothing of its operands but how they compare, and needs an order to
hold. -/
theorem Test.exists_holds_eq_map : ∀ test ∈ [gt, gte, lt, lte],
    ∃ allows : Option Ordering → Bool, allows none = false ∧
      ∀ (actual : Operand) (expected : Value),
        test.holds actual expected = (actual.order expected).map allows := by
  intro test htest
  simp only [List.mem_cons, List.not_mem_nil, or_false] at htest
  rcases htest with rfl | rfl | rfl | rfl
  · exact ⟨_, rfl, fun actual expected => rfl⟩
  · exact ⟨_, rfl, fun actual expected => rfl⟩
  · exact ⟨_, rfl, fun actual expected => rfl⟩
  · exact ⟨_, rfl, fun actual expected => rfl⟩

/-- What a test behind marks says of a field, if the limit leaves the two levels that it takes. -/
theorem satisfied_marked_test {path : String} (hpath : IsPath path) (options : Options)
    (document : Document) (marks : Nat) (test : Test) (operand : Value) :
    satisfied options (keyed path (keyed (marked marks test.name) operand)) document =
      if 2 ≤ options.maxDepth then
        turn (marks % 2 == 1)
          (test.holds (Subject.fieldValue ⟨document, options.separator⟩ path) operand)
      else .error (.tooDeep options.maxDepth) := by
  let subject : Subject := ⟨document, options.separator⟩
  have hname : (Marked.ofKey test.name).keyword = some (.relation (.test test)) := by
    rw [Marked.ofKey_name]
  have hlevels : subject.levels .all (keyed path (keyed (marked marks test.name) operand)) = 2 := by
    have hown : (Leaf.field path (keyed (marked marks test.name) operand)).levels =
        (Leaf.field path (keyed test.name operand)).levels :=
      Comparator.levels_marked marks test.name
    rw [subject.levels_unmarked_field hpath, hown, ← subject.levels_unmarked_field hpath,
      subject.levels_test hpath]
  have hmeaning : subject.reading.meaning .all (keyed path (keyed (marked marks test.name) operand)) =
      turn (marks % 2 == 1) (test.holds (subject.fieldValue path) operand) := by
    rw [subject.meaning_unmarked_field hpath, subject.leafMeaning_named,
      Comparator.verdict_marked hname, ← subject.leafMeaning_named, subject.leafMeaning_test]
  rw [satisfied_result, hlevels, hmeaning]

theorem satisfied_test {path : String} (hpath : IsPath path) (options : Options)
    (document : Document) (test : Test) (operand : Value) :
    satisfied options (keyed path (keyed test.name operand)) document =
      if 2 ≤ options.maxDepth then
        test.holds (Subject.fieldValue ⟨document, options.separator⟩ path) operand
      else .error (.tooDeep options.maxDepth) := by
  rw [satisfied_result, Subject.levels_test _ hpath, Subject.meaning_test _ hpath]

/-- What the tests of order and their opposites answer, by the names that are asked for, where the
operands compare. One of less, greater and equal holds, equal being what less or equal and greater
or equal have in common, and the opposite of greater is less or equal. -/
structure OrderedAnswers (answer : String → Except MatchError Bool) (outcome : Ordering) :
    Prop where
  gt : answer Test.gt.name = .ok outcome.isGT
  gte : answer Test.gte.name = .ok outcome.isGE
  lt : answer Test.lt.name = .ok outcome.isLT
  lte : answer Test.lte.name = .ok outcome.isLE
  just_one : [outcome.isLT, outcome.isGT, outcome.isLE && outcome.isGE].count true = 1
  not_gt : answer (marked 1 Test.gt.name) = answer Test.lte.name
  not_lt : answer (marked 1 Test.lt.name) = answer Test.gte.name
  not_gte : answer (marked 1 Test.gte.name) = answer Test.lt.name
  not_lte : answer (marked 1 Test.lte.name) = answer Test.gt.name

/-- The tests of order and their opposites stand together. If the operands cannot be compared they
all fail alike. If one of two doubles is NaN no test holds and every opposite does. -/
structure OrderingAnswers (actual operand : Value) (answer : String → Except MatchError Bool) :
    Prop where
  fails : ∀ e, actual.order operand = .error e → ∀ test ∈ [Test.gt, .gte, .lt, .lte],
    answer test.name = .error e ∧ answer (marked 1 test.name) = .error e
  ordered : ∀ outcome, actual.order operand = .ok (some outcome) → OrderedAnswers answer outcome
  unordered : actual.order operand = .ok none → ∀ test ∈ [Test.gt, .gte, .lt, .lte],
    answer test.name = .ok false ∧ answer (marked 1 test.name) = .ok true
  unordered_iff : actual.order operand = .ok none ↔
    operand.kind = .float ∧ actual.kind ∈ [.integer, .float] ∧
      (actual = .float .nan ∨ operand = .float .nan)

/-- The tests of order and their opposites stand together on every field and operand. -/
theorem satisfied_orderings {path : String} (hpath : IsPath path) (document : Document)
    {options : Options} (hlimit : 2 ≤ options.maxDepth) (operand : Value) :
    let actual := Subject.fieldValue ⟨document, options.separator⟩ path
    let answer (name : String) := satisfied options (keyed path (keyed name operand)) document
    OrderingAnswers actual operand answer := by
  intro actual answer
  have hplain (test : Test) : answer test.name = test.holds actual operand := by
    have hanswer := satisfied_test hpath options document test operand
    rw [if_pos hlimit] at hanswer
    exact hanswer
  have hmark (test : Test) :
      answer (marked 1 test.name) = turn true (test.holds actual operand) := by
    have hanswer := satisfied_marked_test hpath options document 1 test operand
    rw [if_pos hlimit] at hanswer
    exact hanswer
  refine ⟨?_, ?_, ?_, actual.order_eq_none_iff operand⟩
  · intro e herror test htest
    obtain ⟨allows, -, hallows⟩ := Test.exists_holds_eq_map test htest
    have hholds : test.holds actual operand = .error e :=
      (hallows actual operand).trans (congrArg (Except.map allows) herror)
    rw [hplain, hmark, hholds]
    exact ⟨rfl, rfl⟩
  · intro outcome horder
    obtain ⟨hgt, hgte, hlt, hlte⟩ := Test.holds_of_order actual horder
    -- each outcome settles all of the equations between the answers by itself
    exact
      { gt := (hplain .gt).trans hgt
        gte := (hplain .gte).trans hgte
        lt := (hplain .lt).trans hlt
        lte := (hplain .lte).trans hlte
        just_one := by cases outcome <;> rfl
        not_gt := by rw [hmark, hplain, hgt, hlte]; cases outcome <;> rfl
        not_lt := by rw [hmark, hplain, hlt, hgte]; cases outcome <;> rfl
        not_gte := by rw [hmark, hplain, hgte, hlt]; cases outcome <;> rfl
        not_lte := by rw [hmark, hplain, hlte, hgt]; cases outcome <;> rfl }
  · intro hunordered test htest
    obtain ⟨allows, hnone, hallows⟩ := Test.exists_holds_eq_map test htest
    have hholds : test.holds actual operand = .ok false :=
      calc
        test.holds actual operand = (actual.order operand).map allows := hallows actual operand
        _ = .ok (allows none) := congrArg (Except.map allows) hunordered
        _ = .ok false := congrArg Except.ok hnone
    rw [hplain, hmark, hholds]
    exact ⟨rfl, rfl⟩

/-- The whole part of a half below zero is zero, a field that is missing is no number, and NaN is
not ordered against itself. -/
theorem satisfied_orderings_half_missing_and_nan :
    IsPath "a" ∧ 2 ≤ (⟨2, '.'⟩ : Options).maxDepth ∧
    ((Value.float (.ofBits 0xbfe0000000000000)).order (.int 0) = .ok (some .eq) ∧
      satisfied ⟨2, '.'⟩ (keyed "a" (keyed "!$gt" (.int 0)))
        [("a", .float (.ofBits 0xbfe0000000000000))] = .ok true) ∧
    (Value.null.order (.float .nan) = .error (.castFailed .float) ∧
      satisfied ⟨2, '.'⟩ (keyed "a" (keyed "!$gt" (.float .nan))) [] =
        .error (.castFailed .float)) ∧
    ((Value.float .nan).order (.float .nan) = .ok none ∧
      satisfied ⟨2, '.'⟩ (keyed "a" (keyed "$lte" (.float .nan))) [("a", .float .nan)] =
        .ok false ∧
      satisfied ⟨2, '.'⟩ (keyed "a" (keyed "!$gt" (.float .nan))) [("a", .float .nan)] =
        .ok true) := by
  have hpath : IsPath "a" := by decide
  have hlimit : 2 ≤ (⟨2, '.'⟩ : Options).maxDepth := by decide
  have hhalf := satisfied_orderings hpath [("a", .float (.ofBits 0xbfe0000000000000))] hlimit
    (.int 0)
  have hmissing := satisfied_orderings hpath [] hlimit (.float .nan)
  have hnan := satisfied_orderings hpath [("a", .float .nan)] hlimit (.float .nan)
  have hequal := hhalf.ordered .eq rfl
  have hfails := hmissing.fails (.castFailed .float) rfl .gt (by decide)
  have hless := hnan.unordered rfl .lte (by decide)
  have hgreater := hnan.unordered rfl .gt (by decide)
  exact ⟨hpath, hlimit, ⟨rfl, hequal.not_gt.trans hequal.lte⟩, ⟨rfl, hfails.2⟩,
    ⟨rfl, hless.1, hgreater.2⟩⟩

end Query

end DocQuery
