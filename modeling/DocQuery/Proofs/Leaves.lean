import DocQuery.Proofs.Meaning
import DocQuery.Query.WellFormed

/-! Errors start at the leaves of a query: connectives and negation neither make nor hide one. A leaf
with a fault always fails with it, and the only error of any other is a failed cast. -/

namespace DocQuery.Query

theorem Connective.combine_eq_error {c : Connective} {first rest : Except MatchError Bool}
    {e : MatchError} (h : c.combine first rest = .error e) : first = .error e ∨ rest = .error e := by
  unfold Connective.combine at h
  split at h
  · exact Or.inr h
  · exact Or.inr h
  · exact Or.inl h

theorem map_eq_error_iff {f : α → β} {answer : Except MatchError α} {e : MatchError} :
    answer.map f = .error e ↔ answer = .error e := by
  cases answer <;> simp [Except.map]

theorem turn_eq_error_iff {negated : Bool} {answer : Except MatchError Bool} {e : MatchError} :
    turn negated answer = .error e ↔ answer = .error e :=
  map_eq_error_iff

theorem mem_memberLeaves_cons {leaf : Leaf} {key : String} {expectation : Value}
    {members : List (String × Value)} :
    leaf ∈ memberLeaves ((key, expectation) :: members) ↔
      (match (MemberKey.ofKey key).target.leaf? expectation with
        | some own => leaf = own
        | none => leaf ∈ leaves expectation) ∨ leaf ∈ memberLeaves members := by
  rw [memberLeaves, List.mem_append]
  cases (MemberKey.ofKey key).target.leaf? expectation with
  | none => rfl
  | some own => simp

/-- An ordering is decided by the order of its operands. -/
theorem Comparison.verdict_ordering {relation : Relation}
    (h : (Keyword.relation relation).isOrdering = true) :
    ∃ accepts : Option Ordering → Bool, ∀ actual expected,
      Comparison.byValue.verdict actual expected relation =
        (actual.order expected).map accepts := by
  rcases relation with ⟨test⟩ | _
  · cases test with
    | is => cases h
    | isIn => cases h
    | gt => exact ⟨_, fun _ _ => rfl⟩
    | gte => exact ⟨_, fun _ _ => rfl⟩
    | lt => exact ⟨_, fun _ _ => rfl⟩
    | lte => exact ⟨_, fun _ _ => rfl⟩
  · cases h

/-- Ordering in a domain fails just on what is not a number. -/
theorem order_eq_error_iff {actual expected : Value} {domain : NumericDomain} {e : MatchError}
    (h : orderingDomain? expected = some domain) :
    actual.order expected = .error e ↔
      e = .castFailed domain ∧ orderingDomain? actual = none := by
  cases expected <;> cases h <;> cases actual <;>
    simp [Value.order, Value.toInt?, Value.toDouble?, orderingDomain?, eq_comm]

namespace Comparator

theorem verdict_ofName (name : Marked) (actual operand : Value) :
    (ofName name).verdict actual operand =
      match name.keyword with
      | some (.relation relation) =>
        turn name.negated (Comparison.byValue.verdict actual operand relation)
      | some (.connective _) | none => .error (.unknownComparator name.written) := by
  obtain ⟨written, base, keyword, negated⟩ := name
  rcases keyword with _ | ⟨c⟩ | ⟨relation⟩ <;> rfl

/-- A faulty operand is found before the actual one is looked at. -/
theorem verdict_of_operandFault {name : Marked} {operand : Value} {e : MatchError}
    (h : operandFault name operand = some e) (actual : Value) :
    (ofName name).verdict actual operand = .error e := by
  rw [verdict_ofName]
  obtain ⟨written, base, keyword, negated⟩ := name
  rcases keyword with _ | ⟨c⟩ | ⟨⟨test⟩ | _⟩
  · cases h; rfl
  · cases h; rfl
  · cases test with
    | is => cases h
    | isIn => cases operand <;> cases h <;> rfl
    | gt | gte | lt | lte => cases operand <;> cases h <;> rfl
  · cases h

/-- An operand that fits can only fail in a cast of the actual one. -/
theorem cast_of_verdict_error {name : Marked} {actual operand : Value} {e : MatchError}
    (hfault : operandFault name operand = none)
    (h : (ofName name).verdict actual operand = .error e) :
    ∃ domain, name.keyword.any Keyword.isOrdering = true ∧
      orderingDomain? operand = some domain ∧ orderingDomain? actual = none ∧
      e = .castFailed domain := by
  rw [verdict_ofName] at h
  obtain ⟨written, base, keyword, negated⟩ := name
  -- the four orderings fail for the same reason
  have hordering (relation : Relation) (hr : (Keyword.relation relation).isOrdering = true)
      (hdomain : (orderingDomain? operand).isSome = true)
      (he : turn negated (Comparison.byValue.verdict actual operand relation) = .error e) :
      ∃ domain, (Keyword.relation relation).isOrdering = true ∧
        orderingDomain? operand = some domain ∧ orderingDomain? actual = none ∧
        e = .castFailed domain := by
    obtain ⟨accepts, haccepts⟩ := Comparison.verdict_ordering hr
    obtain ⟨domain, hd⟩ := Option.isSome_iff_exists.mp hdomain
    rw [turn_eq_error_iff, haccepts, map_eq_error_iff] at he
    obtain ⟨hcast, hactual⟩ := (order_eq_error_iff hd).mp he
    exact ⟨domain, hr, hd, hactual, hcast⟩
  have hdomain (he : (if (orderingDomain? operand).isSome then none
      else some (MatchError.notOrdered operand.kind)) = none) :
      (orderingDomain? operand).isSome = true := by
    cases hd : (orderingDomain? operand).isSome with
    | true => rfl
    | false => rw [hd] at he; cases he
  rcases keyword with _ | ⟨c⟩ | ⟨⟨test⟩ | _⟩
  · cases hfault
  · cases hfault
  · cases test with
    | is => cases h
    | isIn =>
      cases operand with
      | arr items => cases h
      | null | bool | int | float | str | obj => cases hfault
    | gt => exact hordering (.test .gt) rfl (hdomain hfault) h
    | gte => exact hordering (.test .gte) rfl (hdomain hfault) h
    | lt => exact hordering (.test .lt) rfl (hdomain hfault) h
    | lte => exact hordering (.test .lte) rfl (hdomain hfault) h
  · cases operand <;> cases h

theorem verdict_of_cast {name : Marked} {actual operand : Value} {domain : NumericDomain}
    (hkeyword : name.keyword.any Keyword.isOrdering = true)
    (hoperand : orderingDomain? operand = some domain) (hactual : orderingDomain? actual = none) :
    (ofName name).verdict actual operand = .error (.castFailed domain) := by
  rw [verdict_ofName]
  obtain ⟨written, base, keyword, negated⟩ := name
  rcases keyword with _ | ⟨c⟩ | ⟨relation⟩
  · cases hkeyword
  · cases hkeyword
  · have hordering : (Keyword.relation relation).isOrdering = true := hkeyword
    obtain ⟨accepts, haccepts⟩ := Comparison.verdict_ordering hordering
    have horder := (order_eq_error_iff hoperand).mpr ⟨rfl, hactual⟩
    exact turn_eq_error_iff.mpr (by rw [haccepts, map_eq_error_iff, horder])

end Comparator

namespace Subject

variable (subject : Subject)

theorem targetMeaning_of_leaf {expectation : Value} {target : Target} {leaf : Leaf}
    (h : target.leaf? expectation = some leaf) (sub : Connective → Except MatchError Bool) :
    subject.targetMeaning expectation sub target = subject.leafMeaning leaf := by
  cases target <;> simp_all [Target.leaf?, targetMeaning]

theorem targetMeaning_eq_error {expectation : Value} {target : Target} {e : MatchError}
    {sub : Connective → Except MatchError Bool}
    (h : subject.targetMeaning expectation sub target = .error e) :
    (∃ leaf, target.leaf? expectation = some leaf ∧ subject.leafMeaning leaf = .error e) ∨
      (target.leaf? expectation = none ∧ ∃ c, sub c = .error e) := by
  cases target with
  | parts c => exact Or.inr ⟨rfl, c, h⟩
  | opposite => exact Or.inr ⟨rfl, .all, map_eq_error_iff.mp h⟩
  | document name => exact Or.inl ⟨_, rfl, h⟩
  | field path => exact Or.inl ⟨_, rfl, h⟩

/-- A leaf with a fault fails with it on every document. -/
theorem leafMeaning_of_fault {leaf : Leaf} {e : MatchError} (h : leaf.fault = some e) :
    subject.leafMeaning leaf = .error e := by
  cases leaf with
  | scalar query => cases h; rfl
  | whole name operand =>
    rw [leafMeaning]
    -- the fault is the operand's, or it is that the document cannot be ordered
    rcases Option.or_eq_some_iff.mp h with hoperand | ⟨hnone, hwhole⟩
    · exact Comparator.verdict_of_operandFault hoperand _
    · split at hwhole
      · rename_i hkeyword
        obtain ⟨domain, hoperand, he⟩ := Option.map_eq_some_iff.mp hwhole
        rw [← he]
        exact Comparator.verdict_of_cast hkeyword hoperand rfl
      · cases hwhole
  | field path expectation =>
    rw [leafMeaning, Comparison.expectationMeaning_eq]
    cases expectation with
    | null | bool => cases h; rfl
    | int | float | str | arr => cases h
    | obj members =>
      rcases members with _ | ⟨⟨name, operand⟩, _ | ⟨second, rest⟩⟩
      · cases h; rfl
      · exact Comparator.verdict_of_operandFault h _
      · cases h; rfl

/-- The only error of a leaf without a fault is a failed cast of a field that it orders. -/
theorem cast_of_leafMeaning_error {leaf : Leaf} {e : MatchError} (hfault : leaf.fault = none)
    (h : subject.leafMeaning leaf = .error e) :
    ∃ path domain, leaf.Orders path domain ∧ orderingDomain? (subject.fieldValue path) = none ∧
      e = .castFailed domain := by
  cases leaf with
  | scalar query => cases hfault
  | whole name operand =>
    obtain ⟨hoperand, hwhole⟩ := Option.or_eq_none_iff.mp hfault
    obtain ⟨domain, hkeyword, hdomain, -, -⟩ := Comparator.cast_of_verdict_error hoperand h
    rw [if_pos hkeyword, hdomain] at hwhole
    cases hwhole
  | field path expectation =>
    rw [leafMeaning, Comparison.expectationMeaning_eq] at h
    cases expectation with
    | null | bool => cases hfault
    | int | float | str | arr => cases h
    | obj members =>
      rcases members with _ | ⟨⟨name, operand⟩, _ | ⟨second, rest⟩⟩
      · cases hfault
      · obtain ⟨domain, hkeyword, hdomain, hactual, he⟩ :=
          Comparator.cast_of_verdict_error hfault h
        exact ⟨path, domain, ⟨rfl, hkeyword, hdomain⟩, hactual, he⟩
      · cases hfault

mutual

/-- An error of a query is the error of one of its leaves. -/
theorem exists_leaf_of_meaning_error {e : MatchError} (c : Connective) : (query : Value) →
    subject.reading.meaning c query = .error e →
      ∃ leaf ∈ leaves query, subject.leafMeaning leaf = .error e
  | .obj members, h => exists_leaf_of_membersMeaning_error c members h
  | .arr items, h => exists_leaf_of_itemsMeaning_error c items h
  | .null, h | .bool _, h | .int _, h | .float _, h | .str _, h =>
    ⟨_, List.mem_singleton_self _, h⟩

theorem exists_leaf_of_membersMeaning_error {e : MatchError} (c : Connective) :
    (members : List (String × Value)) → subject.reading.membersMeaning c members = .error e →
    ∃ leaf ∈ memberLeaves members, subject.leafMeaning leaf = .error e
  | (key, expectation) :: members, h => by
    rw [Reading.membersMeaning, entryMeaning_toList] at h
    rcases Connective.combine_eq_error h with h | h
    · rcases subject.targetMeaning_eq_error (turn_eq_error_iff.mp h) with
        ⟨leaf, hleaf, he⟩ | ⟨hnone, d, he⟩
      · refine ⟨leaf, mem_memberLeaves_cons.mpr (Or.inl ?_), he⟩
        rw [hleaf]
      · obtain ⟨leaf, hmem, he⟩ := exists_leaf_of_meaning_error d expectation he
        refine ⟨leaf, mem_memberLeaves_cons.mpr (Or.inl ?_), he⟩
        rw [hnone]
        exact hmem
    · obtain ⟨leaf, hmem, he⟩ := exists_leaf_of_membersMeaning_error c members h
      exact ⟨leaf, mem_memberLeaves_cons.mpr (Or.inr hmem), he⟩

theorem exists_leaf_of_itemsMeaning_error {e : MatchError} (c : Connective) :
    (items : List Value) → subject.reading.itemsMeaning c items = .error e →
    ∃ leaf ∈ itemLeaves items, subject.leafMeaning leaf = .error e
  | item :: items, h => by
    rw [Reading.itemsMeaning] at h
    rcases Connective.combine_eq_error h with h | h
    · obtain ⟨leaf, hmem, he⟩ := exists_leaf_of_meaning_error .all item h
      exact ⟨leaf, List.mem_append_left _ hmem, he⟩
    · obtain ⟨leaf, hmem, he⟩ := exists_leaf_of_itemsMeaning_error c items h
      exact ⟨leaf, List.mem_append_right _ hmem, he⟩

end

end Subject

end DocQuery.Query
