import DocQuery.Proofs.Budget
import DocQuery.Proofs.Leaves

/-! Well-formed queries fail only where a field that they order is no number, and a query of one
leaf that is not well formed always fails. -/

namespace DocQuery.Query

/-- Keys lead to negation before they lead to the whole document. -/
theorem Target.keyword_ne_not {base : String} {name : Marked}
    (h : Target.ofBase base = .document name) : name.keyword ≠ some (.relation .not) := by
  unfold Target.ofBase at h
  split at h
  · cases h
  · cases h
  · rename_i hnot
    split at h
    · rename_i hsentinel
      -- the base begins with a dollar sign, so reading it as a name takes no mark away
      have hne (rest : List Char) : base.toList ≠ '!' :: rest := by
        intro he
        rw [he] at hsentinel
        exact absurd (Option.some.inj hsentinel) (by decide)
      injection h with h
      rw [← h, Marked.ofKey_eq_unmark, MemberKey.unmark_of_ne hne, String.ofList_toList]
      exact hnot
    · cases h

theorem orderingDomain?_eq_none_iff {value : Value} :
    orderingDomain? value = none ↔ value.kind ≠ .integer ∧ value.kind ≠ .float := by
  cases value <;> simp [orderingDomain?, Value.kind]

theorem operandFault_eq_none_iff {name : Marked} {operand : Value} :
    operandFault name operand = none ↔ operandFits name.keyword operand = true := by
  obtain ⟨written, base, keyword, negated⟩ := name
  rcases keyword with _ | ⟨c⟩ | ⟨⟨test⟩ | _⟩
  · simp [operandFault, operandFits]
  · simp [operandFault, operandFits]
  · cases test <;> cases operand <;>
      simp [operandFault, operandFits, orderingDomain?, Value.kind]
  · simp [operandFault, operandFits]

/-- A leaf has a fault just if it does not fit, where no opposite of a test stands against the whole
document: that would not fit, but it would have no fault either. -/
theorem Leaf.fault_eq_none_iff {leaf : Leaf}
    (hnot : ∀ name operand, leaf = .whole name operand → name.keyword ≠ some (.relation .not)) :
    leaf.fault = none ↔ leaf.fits = true := by
  cases leaf with
  | scalar query => simp [Leaf.fault, Leaf.fits]
  | whole name operand =>
    have hkeyword := hnot name operand rfl
    obtain ⟨written, base, keyword, negated⟩ := name
    rcases keyword with _ | ⟨c⟩ | ⟨⟨test⟩ | _⟩
    · simp [Leaf.fault, Leaf.fits, operandFault]
    · simp [Leaf.fault, Leaf.fits, operandFault]
    · cases test <;> cases operand <;>
        simp [Leaf.fault, Leaf.fits, operandFault, orderingDomain?, Value.kind, Keyword.isOrdering]
    · exact absurd rfl hkeyword
  | field path expectation =>
    cases expectation with
    | null | bool => simp [Leaf.fault, Leaf.fits]
    | int | float | str | arr => simp [Leaf.fault, Leaf.fits]
    | obj members =>
      rcases members with _ | ⟨⟨name, operand⟩, _ | ⟨second, rest⟩⟩
      · simp [Leaf.fault, Leaf.fits]
      · exact operandFault_eq_none_iff
      · simp [Leaf.fault, Leaf.fits]

theorem Leaf.fault_eq_none_of_fits {leaf : Leaf} (h : leaf.fits = true) : leaf.fault = none := by
  apply (Leaf.fault_eq_none_iff ?_).mpr h
  intro name operand hleaf hkeyword
  rw [hleaf] at h
  simp [Leaf.fits, hkeyword] at h

/-- A leaf of a key that does not fit has a fault. -/
theorem Leaf.exists_fault {key : String} {expectation : Value} {leaf : Leaf}
    (hleaf : (MemberKey.ofKey key).target.leaf? expectation = some leaf)
    (hfits : leaf.fits = false) : ∃ e, leaf.fault = some e := by
  have hnot : ∀ name operand, leaf = .whole name operand →
      name.keyword ≠ some (.relation .not) := by
    intro name operand hwhole
    cases htarget : (MemberKey.ofKey key).target with
    | parts c => rw [htarget] at hleaf; cases hleaf
    | opposite => rw [htarget] at hleaf; cases hleaf
    | document other =>
      rw [htarget, hwhole] at hleaf
      cases hleaf
      exact Target.keyword_ne_not htarget
    | field path =>
      rw [htarget, hwhole] at hleaf
      cases hleaf
  apply Option.ne_none_iff_exists'.mp
  intro hnone
  have htrue := (Leaf.fault_eq_none_iff hnot).mp hnone
  rw [hfits] at htrue
  cases htrue

theorem Comparator.levels_ofName {name : Marked} (h : name.keyword ≠ some (.relation .not)) :
    (Comparator.ofName name).levels = 0 := by
  obtain ⟨written, base, keyword, negated⟩ := name
  rcases keyword with _ | ⟨c⟩ | ⟨⟨test⟩ | _⟩
  · rfl
  · rfl
  · rfl
  · exact absurd rfl h

theorem keyword_ne_not_of_operandFault {name : Marked} {operand : Value} {e : MatchError}
    (h : operandFault name operand = some e) : name.keyword ≠ some (.relation .not) := by
  intro hkeyword
  simp [operandFault, hkeyword] at h

/-- A fault is found on the level of its key. -/
theorem Leaf.levels_of_fault {leaf : Leaf} {e : MatchError} (h : leaf.fault = some e) :
    leaf.levels = 0 := by
  cases leaf with
  | scalar query => rfl
  | whole name operand =>
    apply Comparator.levels_ofName
    intro hkeyword
    simp [Leaf.fault, operandFault, hkeyword, Keyword.isOrdering] at h
  | field path expectation =>
    cases expectation with
    | null | bool | int | float | str | arr => rfl
    | obj members =>
      rcases members with _ | ⟨⟨name, operand⟩, _ | ⟨second, rest⟩⟩
      · rfl
      · exact Comparator.levels_ofName (keyword_ne_not_of_operandFault h)
      · rfl

theorem Target.levels_of_leaf {expectation : Value} {target : Target} {leaf : Leaf}
    (h : target.leaf? expectation = some leaf) (sub : Connective → Nat) :
    target.levels expectation sub = leaf.levels := by
  cases target <;> cases h <;> rfl

/-- A query of one leaf with a fault fails with it on the second level. -/
theorem satisfied_of_fault {key : String} {expectation : Value} {leaf : Leaf} {e : MatchError}
    (hleaf : (MemberKey.ofKey key).target.leaf? expectation = some leaf)
    (hfault : leaf.fault = some e) {options : Options} (document : Document)
    (hdepth : 2 ≤ options.maxDepth) :
    satisfied options (.obj [(key, expectation)]) document = .error e := by
  let subject : Subject := ⟨document, options.separator⟩
  have hentry : subject.reading.entryMeaning expectation
      (fun c => subject.reading.meaning c expectation) key.toList = .error e := by
    rw [subject.entryMeaning_toList, subject.targetMeaning_of_leaf hleaf,
      subject.leafMeaning_of_fault hfault, turn_error]
  have hmeaning : subject.reading.meaning .all (.obj [(key, expectation)]) = .error e := by
    rw [Reading.meaning, Reading.membersMeaning, hentry]
    rfl
  have hlevels : subject.levels .all (.obj [(key, expectation)]) = 2 := by
    rw [Subject.levels, Subject.membersLevels, hentry, Target.levels_of_leaf hleaf,
      Leaf.levels_of_fault hfault]
    rfl
  have henough : subject.levels .all (.obj [(key, expectation)]) ≤ options.maxDepth := by
    rw [hlevels]
    exact hdepth
  rw [satisfied_result, if_pos henough]
  exact hmeaning

theorem leaves_of_leaf {key : String} {expectation : Value} {leaf : Leaf}
    (h : (MemberKey.ofKey key).target.leaf? expectation = some leaf) :
    leaves (.obj [(key, expectation)]) = [leaf] := by
  rw [leaves, memberLeaves, h]
  rfl

/-- A well-formed query is answered or fails to cast a field that it orders, which is missing or no
number. A query of one leaf that is not well formed fails on all documents, and how can be read off
the leaf. -/
theorem wellFormed_sound_exact_at_leaf :
    (∀ (options : Options) (query : Value) (document : Document),
      wellFormed query = true → 2 * query.height + 1 ≤ options.maxDepth →
      (∃ holds, satisfied options query document = .ok holds) ∨
      ∃ domain path, ∃ leaf ∈ leaves query,
        satisfied options query document = .error (.castFailed domain) ∧
        leaf.Orders path domain ∧
        ∀ value, document.resolve options.separator path = some value →
          value.kind ≠ .integer ∧ value.kind ≠ .float) ∧
    ∀ (key : String) (expectation : Value) (leaf : Leaf),
      (MemberKey.ofKey key).target.leaf? expectation = some leaf →
      wellFormed (.obj [(key, expectation)]) = false →
      ∃ e, leaf.fault = some e ∧ ∀ (options : Options) (document : Document),
        2 ≤ options.maxDepth →
        satisfied options (.obj [(key, expectation)]) document = .error e := by
  constructor
  · intro options query document hwell hdepth
    let subject : Subject := ⟨document, options.separator⟩
    have hlevels := subject.levels_le .all query
    rw [satisfied_result, if_pos (Nat.le_trans hlevels hdepth)]
    cases hmeaning : subject.reading.meaning .all query with
    | ok holds => exact Or.inl ⟨holds, rfl⟩
    | error e =>
      -- the error comes from a leaf, and a leaf that fits can only fail to cast
      obtain ⟨leaf, hmem, he⟩ := subject.exists_leaf_of_meaning_error .all query hmeaning
      have hfits : leaf.fits = true := List.all_eq_true.mp hwell leaf hmem
      obtain ⟨path, domain, horders, hnone, rfl⟩ :=
        subject.cast_of_leafMeaning_error (Leaf.fault_eq_none_of_fits hfits) he
      refine Or.inr ⟨domain, path, leaf, hmem, rfl, horders, ?_⟩
      intro value hvalue
      have hfield : subject.fieldValue path = value := by
        rw [Subject.fieldValue, hvalue, Option.getD_some]
      rw [hfield] at hnone
      exact orderingDomain?_eq_none_iff.mp hnone
  · intro key expectation leaf hleaf hwell
    rw [wellFormed, leaves_of_leaf hleaf] at hwell
    have hfits : leaf.fits = false := by
      simpa only [List.all_cons, List.all_nil, Bool.and_true] using hwell
    obtain ⟨e, hfault⟩ := Leaf.exists_fault hleaf hfits
    exact ⟨e, hfault, fun options document => satisfied_of_fault hleaf hfault document⟩

theorem wellFormed_sound_exact_at_ordering_and_membership :
    (wellFormed (.obj [("!a", .obj [("$gt", .int 5)])]) = true ∧
      ∀ document limit, satisfied ⟨5, '.'⟩ (.obj [("!a", .obj [("$gt", .int 5)])]) document ≠
        .error (.tooDeep limit)) ∧
    (wellFormed (.obj [("!a", .obj [("$in", .int 5)])]) = false ∧
      ∃ e, ∀ options document, 2 ≤ options.maxDepth →
        satisfied options (.obj [("!a", .obj [("$in", .int 5)])]) document = .error e) := by
  obtain ⟨hsound, hexact⟩ := wellFormed_sound_exact_at_leaf
  refine ⟨⟨rfl, ?_⟩, ⟨rfl, ?_⟩⟩
  · intro document limit h
    rcases hsound ⟨5, '.'⟩ (.obj [("!a", .obj [("$gt", .int 5)])]) document rfl (by decide) with
      ⟨holds, hok⟩ | ⟨domain, path, leaf, -, hcast, -⟩
    · rw [hok] at h
      cases h
    · rw [hcast] at h
      cases h
  · obtain ⟨e, -, hfails⟩ := hexact "!a" (.obj [("$in", .int 5)]) (.field "a" _) rfl rfl
    exact ⟨e, hfails⟩

end DocQuery.Query
