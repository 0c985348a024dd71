import DocQuery.Proofs.Meaning
import DocQuery.Query.Levels
import DocQuery.Query.Matching

/-! The result of an evaluation is the meaning of the query if the limit leaves the levels that
it needs, and otherwise the error of a limit that is too low. Of all that an evaluation does with
its depth, this is all that its result shows. -/

namespace DocQuery.Query

theorem Connective.le_levels (c : Connective) (first : Except MatchError Bool) (n m : Nat) :
    n ≤ c.levels first n m := by
  unfold Connective.levels
  split
  · exact Nat.le_max_left n m
  · exact Nat.le_max_left n m
  · exact Nat.le_refl n

theorem Connective.levels_le (c : Connective) (first : Except MatchError Bool) {n m bound : Nat}
    (hn : n ≤ bound) (hm : m ≤ bound) : c.levels first n m ≤ bound := by
  unfold Connective.levels
  split
  · exact Nat.max_le.mpr ⟨hn, hm⟩
  · exact Nat.max_le.mpr ⟨hn, hm⟩
  · exact hn

theorem Comparator.levels_le_one (comparator : Comparator) : comparator.levels ≤ 1 := by
  unfold Comparator.levels
  split <;> omega

theorem Leaf.levels_le_one (leaf : Leaf) : leaf.levels ≤ 1 := by
  cases leaf with
  | scalar query => exact Nat.zero_le 1
  | whole name operand => exact Comparator.levels_le_one _
  | field path expectation =>
    simp only [Leaf.levels]
    cases Comparator.ofExpectation path expectation with
    | ok named => exact named.1.levels_le_one
    | error e => exact Nat.zero_le 1

theorem Target.levels_le (target : Target) (expectation : Value) {sub : Connective → Nat}
    {bound : Nat} (hsub : ∀ c, sub c ≤ bound) (hbound : 1 ≤ bound) :
    target.levels expectation sub ≤ bound := by
  cases target with
  | parts c => exact hsub c
  | opposite => exact hsub .all
  | document name => exact Nat.le_trans (Leaf.whole name expectation).levels_le_one hbound
  | field path => exact Nat.le_trans (Leaf.field path expectation).levels_le_one hbound

namespace Depth

/-- An answer that needs some levels below a depth. -/
def grant (depth : Depth) (levels : Nat) (answer : Except MatchError α) : Except MatchError α :=
  if depth.level + levels ≤ depth.limit then answer else .error (.tooDeep depth.limit)

theorem grant_zero (depth : Depth) (answer : Except MatchError α) : depth.grant 0 answer = answer :=
  if_pos depth.level_le_limit

/-- What is granted below the next level takes one level more. -/
theorem enter_bind {depth : Depth} {next : Depth → Except MatchError α} {levels : Nat}
    {answer : Except MatchError α}
    (hnext : ∀ below : Depth, below.level = depth.level + 1 → below.limit = depth.limit →
      next below = below.grant levels answer) :
    (depth.enter >>= next) = depth.grant (levels + 1) answer := by
  unfold enter grant
  split
  · rename_i h
    have hbelow := hnext ⟨depth.level + 1, depth.limit, h⟩ rfl rfl
    change next ⟨depth.level + 1, depth.limit, h⟩ = _
    rw [hbelow, grant]
    simp only [Nat.add_assoc, Nat.add_comm 1]
  · rename_i h
    -- where there is no next level there is not enough room either
    have hmore : ¬ depth.level + (levels + 1) ≤ depth.limit := by omega
    rw [if_neg hmore]
    rfl

theorem map_grant (depth : Depth) (levels : Nat) (f : α → β) (answer : Except MatchError α) :
    (depth.grant levels answer).map f = depth.grant levels (answer.map f) := by
  unfold grant
  split <;> rfl

/-- The rest is evaluated only if the first part leaves the whole open. -/
theorem grant_combine (depth : Depth) (c : Connective) (n m : Nat)
    (first rest : Except MatchError Bool) :
    (depth.grant n first >>= fun holds =>
        if holds = c.decisive then .ok holds else depth.grant m rest) =
      depth.grant (c.levels first n m) (c.combine first rest) := by
  unfold grant
  by_cases hn : depth.level + n ≤ depth.limit
  · rw [if_pos hn]
    cases first with
    | error e => cases c <;> exact (if_pos hn).symm
    | ok holds =>
      -- the first part fits, so the levels of the rest alone decide whether both do
      have hmax : depth.level + max n m ≤ depth.limit ↔ depth.level + m ≤ depth.limit := by omega
      cases c <;> cases holds
      · exact (if_pos hn).symm
      · simp only [Connective.levels, Connective.combine, hmax]
        rfl
      · simp only [Connective.levels, Connective.combine, hmax]
        rfl
      · exact (if_pos hn).symm
  · have hmore : ¬ depth.level + c.levels first n m ≤ depth.limit := by
      have hle := c.le_levels first n m
      omega
    rw [if_neg hn, if_neg hmore]
    rfl

end Depth

theorem Comparison.verdict_test (actual expected : Value) (test : Test) :
    Comparison.byValue.verdict actual expected (.test test) = test.holds actual expected := by
  cases test <;> cases expected <;> rfl

theorem Comparison.verdict_not (actual expected : Value) :
    Comparison.byValue.verdict actual expected .not =
      ((Test.implied expected).holds actual expected).map (!·) := by
  cases expected <;> rfl

namespace Comparator

theorem applyTest_result (test : Test) (negated : Bool) (actual expected : Value) :
    (applyTest test negated actual expected).result = turn negated (test.holds actual expected) := by
  unfold applyTest
  rw [Run.bind_result, Run.ofExcept_result]
  cases test.holds actual expected <;> rfl

/-- The opposite of an implied test needs a level; everything else a comparator does is free. -/
theorem apply_result (comparator : Comparator) (depth : Depth) (actual expected : Value) :
    (comparator.apply depth actual expected).result =
      depth.grant comparator.levels (comparator.verdict actual expected) := by
  obtain ⟨relation, negated, name⟩ := comparator
  rcases relation with _ | ⟨test⟩ | _
  · exact (depth.grant_zero _).symm
  · have hlevels : Comparator.levels ⟨some (.test test), negated, name⟩ = 0 := rfl
    simp only [hlevels, Depth.grant_zero, verdict, Comparison.verdict_test]
    exact applyTest_result test negated actual expected
  · -- the implied test runs below the level that is entered, and needs none itself
    have hlevels : Comparator.levels ⟨some .not, negated, name⟩ = 0 + 1 := rfl
    rw [hlevels, apply, Run.bind_result, Run.ofExcept_result]
    apply Depth.enter_bind
    intro below _ _
    simp only [Depth.grant_zero, Run.bind_result, applyTest_result, turn_false, verdict,
      Comparison.verdict_not]
    cases (Test.implied expected).holds actual expected <;> rfl

end Comparator

namespace Subject

variable (subject : Subject)

theorem whole_result (depth : Depth) (name : Marked) (operand : Value) :
    (subject.whole depth name operand).result =
      depth.grant (Leaf.whole name operand).levels (subject.leafMeaning (.whole name operand)) := by
  unfold whole
  rw [Run.report_bind_result, Comparator.apply_document]
  exact Comparator.apply_result _ _ _ _

theorem field_result (depth : Depth) (path : String) (expectation : Value) :
    (subject.field depth path expectation).result =
      depth.grant (Leaf.field path expectation).levels
        (subject.leafMeaning (.field path expectation)) := by
  simp only [field_eq, Leaf.levels, leafMeaning, Comparison.expectationMeaning_eq]
  cases Comparator.ofExpectation path expectation with
  | error e => exact (depth.grant_zero _).symm
  | ok named => exact Comparator.apply_result _ _ _ _

theorem aim_result (depth : Depth) (expectation : Value) (target : Target)
    {sub : Connective → Depth → Run Bool} {answer : Connective → Except MatchError Bool}
    {levels : Connective → Nat}
    (hsub : ∀ c below, (sub c below).result = below.grant (levels c) (answer c)) :
    (subject.aim depth expectation sub target).result =
      depth.grant (target.levels expectation levels)
        (subject.targetMeaning expectation answer target) := by
  cases target with
  | parts c => exact hsub c depth
  | opposite =>
    rw [aim, Run.map_result, hsub, Depth.map_grant]
    rfl
  | document name => exact subject.whole_result depth name expectation
  | field path => exact subject.field_result depth path expectation

theorem entry_result (depth : Depth) (key : String) (expectation : Value)
    {sub : Connective → Depth → Run Bool} {answer : Connective → Except MatchError Bool}
    {levels : Connective → Nat}
    (hsub : ∀ c below, (sub c below).result = below.grant (levels c) (answer c)) :
    (subject.entry depth key expectation sub).result =
      depth.grant ((MemberKey.ofKey key).target.levels expectation levels + 1)
        (subject.reading.entryMeaning expectation answer key.toList) := by
  unfold entry
  rw [Run.bind_result, Run.ofExcept_result, entryMeaning_toList]
  apply Depth.enter_bind
  intro below _ _
  rw [Run.reportIf_bind_result, Run.bind_result, subject.aim_result below expectation _ hsub, turn,
    ← Depth.map_grant]
  rfl

mutual

/-- The result of an evaluation at any depth. -/
theorem evaluate_result (c : Connective) (depth : Depth) : (query : Value) →
    (subject.evaluate c depth query).result =
      depth.grant (subject.levels c query) (subject.reading.meaning c query)
  | .obj members => by
    rw [evaluate, Run.bind_result, Run.ofExcept_result]
    apply Depth.enter_bind
    intro below _ _
    exact evaluateMembers_result c below members
  | .arr items => by
    rw [evaluate, Run.bind_result, Run.ofExcept_result]
    apply Depth.enter_bind
    intro below _ _
    exact evaluateItems_result c below items
  | .null | .bool _ | .int _ | .float _ | .str _ => by
    rw [evaluate, Run.bind_result, Run.ofExcept_result]
    · apply Depth.enter_bind
      intro below _ _
      exact (below.grant_zero _).symm
    all_goals nofun

theorem evaluateMembers_result (c : Connective) (depth : Depth) :
    (members : List (String × Value)) →
    (subject.evaluateMembers c depth members).result =
      depth.grant (subject.membersLevels c members) (subject.reading.membersMeaning c members)
  | [] => by
    cases c <;> exact (depth.grant_zero _).symm
  | (key, expectation) :: members => by
    -- the expectation is evaluated below the level that its key enters, whichever that is
    have hentry := subject.entry_result depth key expectation
      (fun c below => evaluate_result c below expectation)
    have hrest := evaluateMembers_result c depth members
    rw [evaluateMembers, Run.bind_stop_result c _ _ fun _ => rfl, hentry, hrest,
      Depth.grant_combine, membersLevels, Reading.membersMeaning]

theorem evaluateItems_result (c : Connective) (depth : Depth) : (items : List Value) →
    (subject.evaluateItems c depth items).result =
      depth.grant (subject.itemsLevels c items) (subject.reading.itemsMeaning c items)
  | [] => by
    cases c <;> exact (depth.grant_zero _).symm
  | item :: items => by
    have hitem := evaluate_result .all depth item
    have hrest := evaluateItems_result c depth items
    rw [evaluateItems, Run.bind_stop_result c _ _ fun _ => rfl, hitem, hrest,
      Depth.grant_combine, itemsLevels, Reading.itemsMeaning]

end

theorem one_le_levels (c : Connective) (query : Value) : 1 ≤ subject.levels c query := by
  cases query <;> simp [levels]

mutual

/-- A container takes a level for itself and one for a member; a leaf may take another. -/
theorem levels_le (c : Connective) : (query : Value) →
    subject.levels c query ≤ 2 * query.height + 1
  | .obj members => by
    have hmembers := membersLevels_le c members
    simp only [levels, Value.height]
    omega
  | .arr items => by
    have hitems := itemsLevels_le c items
    simp only [levels, Value.height]
    omega
  | .null | .bool _ | .int _ | .float _ | .str _ => Nat.le_refl 1

theorem membersLevels_le (c : Connective) : (members : List (String × Value)) →
    subject.membersLevels c members ≤ 2 * Value.heightMembers members + 2
  | [] => Nat.zero_le _
  | (key, expectation) :: members => by
    have hexpectation (c : Connective) := levels_le c expectation
    have hmembers := membersLevels_le c members
    -- a leaf takes at most one level more, which every expectation would take as a query
    have hentry := (MemberKey.ofKey key).target.levels_le expectation hexpectation (by omega)
    simp only [membersLevels, Value.heightMembers]
    apply Connective.levels_le <;> omega

theorem itemsLevels_le (c : Connective) : (items : List Value) →
    subject.itemsLevels c items ≤ 2 * Value.heightItems items + 1
  | [] => Nat.zero_le _
  | item :: items => by
    have hitem := levels_le .all item
    have hitems := itemsLevels_le c items
    simp only [itemsLevels, Value.heightItems]
    apply Connective.levels_le <;> omega

end

end Subject

/-- The answer to a query is its meaning, or the error of a limit that is too low for it. -/
theorem satisfied_result (options : Options) (query : Value) (document : Document) :
    satisfied options query document =
      if (⟨document, options.separator⟩ : Subject).levels .all query ≤ options.maxDepth then
        (⟨document, options.separator⟩ : Subject).reading.meaning .all query
      else .error (.tooDeep options.maxDepth) := by
  rw [satisfied_eq_evaluate, Subject.evaluate_result, Depth.grant]
  simp [Depth.top]

theorem satisfied_of_levels_le {options : Options} {query : Value} {document : Document}
    (h : Subject.levels ⟨document, options.separator⟩ .all query ≤ options.maxDepth) :
    satisfied options query document =
      (Subject.reading ⟨document, options.separator⟩).meaning .all query := by
  rw [satisfied_result]
  exact if_pos h

/-- An evaluation that is not stopped by its limit has all the levels that it needs. -/
theorem levels_le_of_ne_tooDeep {options : Options} {query : Value} {document : Document}
    (h : ∀ exceeded, satisfied options query document ≠ .error (.tooDeep exceeded)) :
    Subject.levels ⟨document, options.separator⟩ .all query ≤ options.maxDepth := by
  apply Decidable.byContradiction
  intro hlow
  apply h options.maxDepth
  rw [satisfied_result]
  exact if_neg hlow

/-- The answer is the meaning whenever the limit leaves two levels for each container of the query
and one for its innermost part. -/
theorem satisfied_eq_meaning (options : Options) (query : Value) (document : Document)
    (h : 2 * query.height + 1 ≤ options.maxDepth) :
    satisfied options query document =
      (⟨document, options.separator⟩ : Subject).reading.meaning .all query := by
  have hlevels := (⟨document, options.separator⟩ : Subject).levels_le .all query
  rw [satisfied_result]
  exact if_pos (Nat.le_trans hlevels h)

end DocQuery.Query
