import DocQuery.Proofs.OrderTests

/-! NaN has no order among doubles, and no test of order holds of it there. Against an integer it is
turned into an integer before it is compared, and comes out as zero: what holds of zero then holds of
it, so that an integer and the double of the same value are not the same bound to it. -/

namespace DocQuery

namespace Value

/-- Among doubles NaN comes neither before nor after anything, itself included. -/
theorem order_nan_float (y : Double) : (float .nan).order (float y) = .ok none :=
  congrArg Except.ok ((Double.compare?_eq_none_iff .nan y).mpr (.inl rfl))

/-- Among integers NaN stands where zero does. -/
theorem order_nan_int (n : Int64) : (float .nan).order (int n) = (int 0).order (int n) := rfl

end Value

/-- How zero stands to an integer. -/
theorem compare_zero_tests (n : Int) :
    (compare 0 n).isGT = decide (n < 0) ∧ (compare 0 n).isGE = decide (n ≤ 0) ∧
      (compare 0 n).isLT = decide (0 < n) ∧ (compare 0 n).isLE = decide (0 ≤ n) := by
  rcases Int.lt_trichotomy 0 n with hlt | rfl | hgt
  · rw [Int.compare_eq_lt.mpr hlt]
    simp [hlt, Int.le_of_lt hlt, Int.not_lt.mpr (Int.le_of_lt hlt)]
  · decide
  · rw [Int.compare_eq_gt.mpr hgt]
    simp [hgt, Int.le_of_lt hgt, Int.not_lt.mpr (Int.le_of_lt hgt)]

namespace Query

namespace Test

variable {test : Test} (htest : test ∈ [gt, gte, lt, lte])

include htest

/-- No test of order holds of NaN against a double. -/
theorem holds_nan_float (y : Double) : test.holds (Value.float .nan) (.float y) = .ok false := by
  obtain ⟨allows, hnone, hallows⟩ := exists_holds_eq_map test htest
  calc
    test.holds (Value.float .nan) (.float y)
      = ((Value.float .nan).order (.float y)).map allows := hallows (Value.float .nan) (.float y)
    _ = .ok (allows none) := congrArg (Except.map allows) (Value.order_nan_float y)
    _ = .ok false := congrArg Except.ok hnone

/-- Against an integer each test of order says of NaN what it says of zero. -/
theorem holds_nan_int (n : Int64) :
    test.holds (Value.float .nan) (.int n) = test.holds (Value.int 0) (.int n) := by
  obtain ⟨allows, -, hallows⟩ := exists_holds_eq_map test htest
  calc
    test.holds (Value.float .nan) (.int n)
      = ((Value.float .nan).order (.int n)).map allows := hallows (Value.float .nan) (.int n)
    _ = ((Value.int 0).order (.int n)).map allows :=
      congrArg (Except.map allows) (Value.order_nan_int n)
    _ = test.holds (Value.int 0) (.int n) := (hallows (Value.int 0) (.int n)).symm

/-- Zero can be compared with every integer. -/
theorem exists_holds_zero (n : Int64) :
    ∃ holds, test.holds (Value.int 0) (.int n) = .ok holds := by
  obtain ⟨allows, -, hallows⟩ := exists_holds_eq_map test htest
  exact ⟨allows (some (compare 0 n.toInt)), hallows (Value.int 0) (.int n)⟩

end Test

/-- Against a value NaN is without an order just if the value is a double, and no test of order holds
then. Against an integer those hold that hold of zero; and to write the integer as a double leaves an
answer as it was just if that was not yes. -/
theorem satisfied_nan {path : String} (hpath : IsPath path) {options : Options}
    {document : Document} (hnan : document.resolve options.separator path = some (.float .nan)) :
    let answer (test : Test) (bound : Value) :=
      satisfied options (keyed path (keyed test.name bound)) document
    (∀ bound : Value, (Value.float .nan).order bound = .ok none ↔ bound.kind = .float) ∧
    (∀ y : Double, ∀ test ∈ [Test.gt, .gte, .lt, .lte], answer test (.float y) ≠ .ok true) ∧
    (2 ≤ options.maxDepth → ∀ n : Int64,
      answer .gt (.int n) = .ok (decide (n.toInt < 0)) ∧
      answer .gte (.int n) = .ok (decide (n.toInt ≤ 0)) ∧
      answer .lt (.int n) = .ok (decide (0 < n.toInt)) ∧
      answer .lte (.int n) = .ok (decide (0 ≤ n.toInt))) ∧
    ∀ (n : Int64) (y : Double), ∀ test ∈ [Test.gt, .gte, .lt, .lte],
      (answer test (.int n) = answer test (.float y) ↔ answer test (.int n) ≠ .ok true) := by
  intro answer
  have hanswer (test : Test) (bound : Value) :
      answer test bound =
        if 2 ≤ options.maxDepth then test.holds (Value.float .nan) bound
        else .error (.tooDeep options.maxDepth) := by
    have htest := satisfied_test hpath options document test bound
    rw [Subject.fieldValue, hnan, Option.getD_some] at htest
    exact htest
  have hfloat (y : Double) (test : Test) (htest : test ∈ [Test.gt, .gte, .lt, .lte]) :
      answer test (.float y) ≠ .ok true := by
    rw [hanswer, Test.holds_nan_float htest]
    split <;> nofun
  refine ⟨?_, hfloat, ?_, ?_⟩
  · intro bound
    rw [Value.order_eq_none_iff]
    exact ⟨And.left, fun hkind => ⟨hkind, List.mem_cons_of_mem _ List.mem_cons_self, .inl rfl⟩⟩
  · intro hlimit n
    have hint (test : Test) (htest : test ∈ [Test.gt, .gte, .lt, .lte]) :
        answer test (.int n) = test.holds (Value.int 0) (.int n) := by
      rw [hanswer, if_pos hlimit, Test.holds_nan_int htest]
    have horder : (Value.int 0 : Operand).order (.int n) = .ok (some (compare 0 n.toInt)) := rfl
    obtain ⟨hgt, hgte, hlt, hlte⟩ := Test.holds_of_order _ horder
    obtain ⟨hbelow, hatMost, habove, hatLeast⟩ := compare_zero_tests n.toInt
    rw [hint .gt (by decide), hint .gte (by decide), hint .lt (by decide), hint .lte (by decide),
      hgt, hgte, hlt, hlte, hbelow, hatMost, habove, hatLeast]
    exact ⟨rfl, rfl, rfl, rfl⟩
  · intro n y test htest
    constructor
    · intro hsame
      rw [hsame]
      exact hfloat y test htest
    · -- an answer other than yes is no, unless the limit leaves none to either bound
      intro hother
      obtain ⟨holds, hholds⟩ := Test.exists_holds_zero htest n
      rw [hanswer, Test.holds_nan_int htest, hholds] at hother ⊢
      rw [hanswer, Test.holds_nan_float htest]
      split
      · rename_i hlimit
        rw [if_pos hlimit] at hother
        cases holds with
        | true => exact absurd rfl hother
        | false => rfl
      · rfl

/-- NaN is less than one, but not if the one is a double. -/
theorem satisfied_nan_one :
    IsPath "a" ∧ Document.resolve '.' "a" [("a", .float .nan)] = some (.float .nan) ∧
    2 ≤ ({} : Options).maxDepth ∧
    satisfied {} (keyed "a" (keyed "$lt" (.int 1))) [("a", .float .nan)] = .ok true ∧
    satisfied {} (keyed "a" (keyed "$lt" (.float (.ofInt 1)))) [("a", .float .nan)] ≠ .ok true := by
  have hpath : IsPath "a" := by decide
  have hnan : Document.resolve ({} : Options).separator "a" [("a", .float .nan)] =
      some (.float .nan) := rfl
  have hlimit : 2 ≤ ({} : Options).maxDepth := by decide
  obtain ⟨-, hfloat, hint, -⟩ := satisfied_nan hpath hnan
  obtain ⟨-, -, hless, -⟩ := hint hlimit 1
  exact ⟨hpath, hnan, hlimit, hless, hfloat (.ofInt 1) .lt (by decide)⟩

/-- Not every number leaves NaN without an order. It equals zero, the integer, and the tests that allow
for equality hold. -/
theorem nan_equals_integer_zero :
    ¬ (∀ bound : Value, bound.kind ∈ [.integer, .float] →
      (Value.float .nan).order bound = .ok none) ∧
    (Value.float .nan).order (.int 0) = .ok (some .eq) ∧
    satisfied {} (keyed "a" (keyed "$gte" (.int 0))) [("a", .float .nan)] = .ok true ∧
    satisfied {} (keyed "a" (keyed "$lte" (.int 0))) [("a", .float .nan)] = .ok true ∧
    satisfied {} (keyed "a" (keyed "$gte" (.float (.finite false ⟨0, by decide⟩))))
      [("a", .float .nan)] = .ok false := by
  refine ⟨fun h => ?_, rfl, rfl, rfl, rfl⟩
  have hzero := h (.int 0) List.mem_cons_self
  cases hzero

end Query

end DocQuery
