import DocQuery.Proofs.Negation
import DocQuery.Proofs.Parts

/-! A plain expectation is short for its implied test, and membership in an array is short for
equality with one of its items. The long forms take more levels, but never more than five. -/

namespace DocQuery.Query

namespace Connective

/-- Of sub-queries that all have answers, one holds if any of the answers does. -/
theorem settle_any_ok (holds : Value → Bool) (items : List Value) :
    any.settle (items.map fun item => .ok (holds item)) = .ok (items.any holds) := by
  induction items with
  | nil => rfl
  | cons item items ih =>
    rw [List.map_cons, settle_cons, ih, List.any_cons]
    cases holds item with
    | true => rfl
    | false => rfl

/-- Parts that stay within some levels stay within them together. -/
theorem deepest_le (c : Connective) {parts : List Part} {bound : Nat}
    (h : ∀ part ∈ parts, part.levels ≤ bound) : c.deepest parts ≤ bound := by
  induction parts with
  | nil => exact Nat.zero_le bound
  | cons first rest ih =>
    have hfirst : first.levels ≤ bound := h first List.mem_cons_self
    have hrest : c.deepest rest ≤ bound :=
      ih fun part hpart => h part (List.mem_cons_of_mem first hpart)
    rw [deepest_cons]
    exact c.levels_le first.answer hfirst hrest

end Connective

/-- The name of a test is read as that test. -/
theorem Marked.ofKey_name (test : Test) :
    Marked.ofKey test.name = ⟨test.name, test.name, some (.relation (.test test)), false⟩ := by
  cases test <;> decide

namespace Subject

variable (subject : Subject) {path : String}

theorem leafMeaning_test (path : String) (test : Test) (operand : Value) :
    subject.leafMeaning (.field path (keyed test.name operand)) =
      test.holds (subject.fieldValue path) operand := by
  rw [leafMeaning_named, Comparator.verdict_ofName, Marked.ofKey_name]
  dsimp only
  rw [turn_false, Comparison.verdict_test]

theorem levels_test (h : IsPath path) (test : Test) (operand : Value) :
    subject.levels .all (keyed path (keyed test.name operand)) = 2 := by
  have hown : (Leaf.field path (keyed test.name operand)).levels = 0 := by
    change (Comparator.ofName (.ofKey test.name)).levels = 0
    rw [Marked.ofKey_name]
    rfl
  rw [levels_unmarked_field _ h, hown]

theorem meaning_test (h : IsPath path) (test : Test) (operand : Value) :
    subject.reading.meaning .all (keyed path (keyed test.name operand)) =
      test.holds (subject.fieldValue path) operand := by
  rw [meaning_unmarked_field _ h, leafMeaning_test]

/-- Behind a mark, equality with an item is the opposite part. -/
theorem itemPart_mark_is (h : IsPath path) (item : Value) :
    subject.itemPart (keyed path (keyed "!$is" item)) =
      (subject.itemPart (keyed path (keyed "$is" item))).opposite := by
  have hmeaning : subject.reading.meaning .all (keyed path (keyed "!$is" item)) =
      turn true (subject.reading.meaning .all (keyed path (keyed "$is" item))) := by
    rw [meaning_unmarked_field _ h, leafMeaning_mark_is]
    exact congrArg (turn true) (subject.meaning_test h .is item).symm
  have hlevels : subject.levels .all (keyed path (keyed "!$is" item)) =
      subject.levels .all (keyed path (keyed "$is" item)) := by
    rw [levels_unmarked_field _ h, levels_unmarked_field _ h]
    rfl
  rw [itemPart, hmeaning, hlevels]
  rfl

theorem itemParts_mark_is (h : IsPath path) (items : List Value) :
    (perItem path "!$is" items).map subject.itemPart =
      ((perItem path "$is" items).map subject.itemPart).map Part.opposite := by
  unfold perItem
  rw [List.map_map, List.map_map, List.map_map]
  exact List.map_congr_left fun item _ => subject.itemPart_mark_is h item

/-- A field equals one of the items if it equals any. -/
theorem meaning_any_is (h : IsPath path) (items : List Value) :
    subject.reading.meaning .any (.arr (perItem path "$is" items)) =
      .ok (items.any fun item => (subject.fieldValue path).equals item) := by
  have hanswers : ((perItem path "$is" items).map subject.itemPart).map Part.answer =
      items.map fun item => .ok ((subject.fieldValue path).equals item) := by
    unfold perItem
    rw [List.map_map, List.map_map]
    exact List.map_congr_left fun item _ => subject.meaning_test h .is item
  rw [meaning_arr, hanswers, Connective.settle_any_ok]

theorem levels_any_is_le (h : IsPath path) (items : List Value) :
    subject.levels .any (.arr (perItem path "$is" items)) ≤ 3 := by
  have hparts : ∀ part ∈ (perItem path "$is" items).map subject.itemPart, part.levels ≤ 2 := by
    intro part hpart
    obtain ⟨query, hquery, rfl⟩ := List.mem_map.mp hpart
    obtain ⟨item, -, rfl⟩ := List.mem_map.mp hquery
    -- whatever the item, its query takes two levels
    exact Nat.le_of_eq (subject.levels_test h .is item)
  have hdeepest := Connective.any.deepest_le hparts
  rw [levels_arr]
  omega

/-- All items differ from a field unless one of them equals it. -/
theorem meaning_all_mark_is (h : IsPath path) (items : List Value) :
    subject.reading.meaning .all (.arr (perItem path "!$is" items)) =
      turn true (subject.reading.meaning .any (.arr (perItem path "$is" items))) := by
  rw [meaning_arr, meaning_arr, itemParts_mark_is _ h]
  -- the parts are opposite, and so is the connective
  exact Connective.any.settle_opposite _

theorem levels_all_mark_is (h : IsPath path) (items : List Value) :
    subject.levels .all (.arr (perItem path "!$is" items)) =
      subject.levels .any (.arr (perItem path "$is" items)) := by
  rw [levels_arr, levels_arr, itemParts_mark_is _ h]
  exact congrArg (· + 1) (Connective.any.deepest_opposite _)

end Subject

/-- A plain expectation is short for its implied test, at every limit. -/
theorem satisfied_implied {path : String} (hpath : IsPath path) {expectation : Value}
    (hkind : expectation.kind ∈ [.string, .integer, .float, .array]) (options : Options)
    (document : Document) :
    satisfied options (keyed path expectation) document =
      satisfied options (keyed path (keyed (Test.implied expectation).name expectation))
        document := by
  let subject : Subject := ⟨document, options.separator⟩
  have hlevels : subject.levels .all (keyed path expectation) = 2 := by
    rw [subject.levels_unmarked_field hpath, Leaf.levels, Comparator.ofExpectation_of_kind hkind]
    rfl
  have hmeaning : subject.reading.meaning .all (keyed path expectation) =
      (Test.implied expectation).holds (subject.fieldValue path) expectation := by
    rw [subject.meaning_unmarked_field hpath, subject.leafMeaning_implied hkind]
  rw [satisfied_result, satisfied_result, hlevels, hmeaning, subject.levels_test hpath,
    subject.meaning_test hpath]

/-! Under a limit of five all forms have an answer. -/

section

variable {path : String} (hpath : IsPath path) {limit : Nat} (hlimit : 5 ≤ limit)
  (subject : Subject) (items : List Value)

include hpath hlimit

theorem satisfied_in : satisfied ⟨limit, subject.separator⟩
    (keyed path (keyed "$in" (.arr items))) subject.document =
      .ok (items.any fun item => (subject.fieldValue path).equals item) := by
  have hlevels : subject.levels .all (keyed path (keyed "$in" (.arr items))) ≤ limit := by
    have htwo := subject.levels_test hpath .isIn (.arr items)
    exact Nat.le_trans (Nat.le_of_eq htwo) (by omega)
  rw [satisfied_of_levels_le hlevels]
  exact subject.meaning_test hpath .isIn (.arr items)

theorem satisfied_any_is : satisfied ⟨limit, subject.separator⟩
    (keyed "$or" (.arr (perItem path "$is" items))) subject.document =
      .ok (items.any fun item => (subject.fieldValue path).equals item) := by
  have hkey : MemberKey.ofKey "$or" = ⟨.parts .any, false⟩ := by decide
  have hparts := subject.levels_any_is_le hpath items
  -- the key and the query around it take two levels more
  have hlevels : subject.levels .all (keyed "$or" (.arr (perItem path "$is" items))) ≤ limit := by
    rw [subject.levels_parts hkey]
    omega
  rw [satisfied_of_levels_le hlevels, subject.meaning_parts hkey, turn_false]
  exact subject.meaning_any_is hpath items

theorem satisfied_not_items : satisfied ⟨limit, subject.separator⟩
    (keyed path (keyed "$not" (.arr items))) subject.document =
      .ok (!items.any fun item => (subject.fieldValue path).equals item) := by
  have hown := (Leaf.field path (keyed "$not" (.arr items))).levels_le_one
  have hlevels : subject.levels .all (keyed path (keyed "$not" (.arr items))) ≤ limit := by
    rw [subject.levels_unmarked_field hpath]
    omega
  rw [satisfied_of_levels_le hlevels, subject.meaning_unmarked_field hpath, subject.leafMeaning_not]
  exact congrArg Except.ok (Bool.bne_true _)

theorem satisfied_all_mark_is : satisfied ⟨limit, subject.separator⟩
    (keyed "$and" (.arr (perItem path "!$is" items))) subject.document =
      .ok (!items.any fun item => (subject.fieldValue path).equals item) := by
  have hkey : MemberKey.ofKey "$and" = ⟨.parts .all, false⟩ := by decide
  have hparts := subject.levels_any_is_le hpath items
  have hlevels : subject.levels .all (keyed "$and" (.arr (perItem path "!$is" items))) ≤
      limit := by
    rw [subject.levels_parts hkey, subject.levels_all_mark_is hpath]
    omega
  rw [satisfied_of_levels_le hlevels, subject.meaning_parts hkey, turn_false,
    subject.meaning_all_mark_is hpath, subject.meaning_any_is hpath]
  exact congrArg Except.ok (Bool.bne_true _)

end

/-- A scalar is short for equality with it and an array for membership in it. Membership in an array
says what it says item by item: one of them equals the field, or all of them differ from it. The
limit has to allow five levels for the longest form. -/
theorem satisfied_shorthands {path : String} (hpath : IsPath path) (document : Document)
    (separator : Char) :
    (∀ (limit : Nat) (scalar : Value), scalar.kind ∈ [.string, .integer, .float] →
      satisfied ⟨limit, separator⟩ (keyed path scalar) document =
        satisfied ⟨limit, separator⟩ (keyed path (keyed "$is" scalar)) document) ∧
    (∀ (limit : Nat) (items : List Value),
      satisfied ⟨limit, separator⟩ (keyed path (.arr items)) document =
        satisfied ⟨limit, separator⟩ (keyed path (keyed "$in" (.arr items))) document) ∧
    (∀ limit : Nat, 5 ≤ limit → ∀ items : List Value, ∃ holds : Bool,
      satisfied ⟨limit, separator⟩ (keyed path (keyed "$in" (.arr items))) document = .ok holds ∧
      satisfied ⟨limit, separator⟩ (keyed "$or" (.arr (perItem path "$is" items))) document =
        .ok holds ∧
      satisfied ⟨limit, separator⟩ (keyed path (keyed "$not" (.arr items))) document =
        .ok (!holds) ∧
      satisfied ⟨limit, separator⟩ (keyed "$and" (.arr (perItem path "!$is" items))) document =
        .ok (!holds)) := by
  refine ⟨?_, ?_, ?_⟩
  · intro limit scalar hkind
    have himplied : Test.implied scalar = .is := by
      cases scalar with
      | arr items => simp [Value.kind] at hkind
      | null | bool | int | float | str | obj => rfl
    have hshort := satisfied_implied hpath
      (List.mem_append_left [Kind.array] hkind) ⟨limit, separator⟩ document
    rw [himplied] at hshort
    exact hshort
  · intro limit items
    have hkind : (Value.arr items).kind ∈ [.string, .integer, .float, .array] := by
      simp [Value.kind]
    exact satisfied_implied hpath hkind ⟨limit, separator⟩ document
  · intro limit hlimit items
    let subject : Subject := ⟨document, separator⟩
    exact ⟨_, satisfied_in hpath hlimit subject items, satisfied_any_is hpath hlimit subject items,
      satisfied_not_items hpath hlimit subject items,
      satisfied_all_mark_is hpath hlimit subject items⟩

/-- A field that is missing is null, so it is one of the items, while NaN is not equal to itself. -/
theorem satisfied_shorthands_missing_field :
    IsPath "a.b" ∧
    ((Value.float .nan).kind ∈ [.string, .integer, .float] ∧
      satisfied ⟨1, '.'⟩ (keyed "a.b" (.float .nan)) [("a", .null)] =
        satisfied ⟨1, '.'⟩ (keyed "a.b" (keyed "$is" (.float .nan))) [("a", .null)]) ∧
    satisfied ⟨2, '.'⟩ (keyed "a.b" (.arr [.float .nan, .arr [.null], .null])) [("a", .null)] =
      satisfied ⟨2, '.'⟩ (keyed "a.b" (keyed "$in" (.arr [.float .nan, .arr [.null], .null])))
        [("a", .null)] ∧
    satisfied ⟨5, '.'⟩ (keyed "$or" (.arr (perItem "a.b" "$is" [.float .nan, .arr [.null], .null])))
      [("a", .null)] = .ok true ∧
    satisfied ⟨5, '.'⟩
      (keyed "$and" (.arr (perItem "a.b" "!$is" [.float .nan, .arr [.null], .null])))
      [("a", .null)] = .ok false := by
  have hpath : IsPath "a.b" := by decide
  have hkind : (Value.float .nan).kind ∈ [.string, .integer, .float] := by decide
  obtain ⟨hscalar, hitems, hlong⟩ := satisfied_shorthands hpath [("a", .null)] '.'
  obtain ⟨holds, hin, hor, -, hand⟩ := hlong 5 (Nat.le_refl 5) [.float .nan, .arr [.null], .null]
  -- the shortest of the forms says which of the two answers it is
  have hholds : holds = true := Except.ok.inj (hin.symm.trans rfl)
  rw [hholds] at hor hand
  exact ⟨hpath, ⟨hkind, hscalar 1 _ hkind⟩, hitems 2 _, hor, hand⟩

end DocQuery.Query
