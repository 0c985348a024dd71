import DocQuery.Proofs.Negation
import DocQuery.Proofs.WellFormed

/-! A key is read in two ways, as a member of a query object and as the name of a comparator. Both
take the same marks away, and what is left decides alike for both. A name that is handed on to a
comparator has no marks of its own any more. -/

namespace DocQuery.Query

/-- Every key is a number of marks and a base that they end before. -/
theorem exists_eq_marked (key : String) :
    ∃ (marks : Nat) (base : String), key = marked marks base ∧ base.toList.head? ≠ some '!' := by
  have hsplit (cs : List Char) :
      ∃ (marks : Nat) (rest : List Char), cs = List.replicate marks '!' ++ rest ∧
        rest.head? ≠ some '!' := by
    induction cs with
    | nil => exact ⟨0, [], rfl, nofun⟩
    | cons c cs ih =>
      by_cases hc : c = '!'
      · obtain ⟨marks, rest, hcs, hrest⟩ := ih
        exact ⟨marks + 1, rest, by rw [hc, hcs, List.replicate_succ, List.cons_append], hrest⟩
      · exact ⟨0, c :: cs, rfl, fun h => hc (Option.some.inj h)⟩
  obtain ⟨marks, rest, hkey, hrest⟩ := hsplit key.toList
  refine ⟨marks, String.ofList rest, ?_, ?_⟩
  · rw [marked, String.toList_ofList, ← hkey, String.ofList_toList]
  · rwa [String.toList_ofList]

section Base

variable {base : String}

/-- A base is read as it stands. -/
theorem Marked.ofKey_base (h : base.toList.head? ≠ some '!') :
    Marked.ofKey base = ⟨base, base, Keyword.ofName? base, false⟩ := by
  rw [Marked.ofKey_eq_unmark, MemberKey.unmark_of_head?_ne h, String.ofList_toList]

theorem MemberKey.ofKey_base (h : base.toList.head? ≠ some '!') :
    MemberKey.ofKey base = ⟨.ofBase base, false⟩ := by
  rw [MemberKey.ofKey_eq_unmark, MemberKey.unmark_of_head?_ne h, String.ofList_toList]

namespace Target

theorem ofBase_eq_parts_iff {c : Connective} :
    ofBase base = .parts c ↔ Keyword.ofName? base = some (.connective c) := by
  unfold ofBase
  split
  · rename_i d hkeyword
    rw [hkeyword]
    simp
  · rename_i hkeyword
    rw [hkeyword]
    simp
  · rename_i hparts hnot
    refine iff_of_false ?_ (hparts c)
    split <;> nofun

theorem ofBase_eq_opposite_iff :
    ofBase base = .opposite ↔ Keyword.ofName? base = some (.relation .not) := by
  unfold ofBase
  split
  · rename_i d hkeyword
    rw [hkeyword]
    simp
  · rename_i hkeyword
    exact iff_of_true rfl hkeyword
  · rename_i hparts hnot
    refine iff_of_false ?_ hnot
    split <;> nofun

/-- Three bases lead to sub-queries. -/
theorem not_mem_reserved_iff :
    base ∉ ["$and", "$or", "$not"] ↔
      (∀ c, Keyword.ofName? base ≠ some (.connective c)) ∧
        Keyword.ofName? base ≠ some (.relation .not) := by
  simp only [Ne, Keyword.ofName?_eq_some_iff, List.mem_cons, List.not_mem_nil, or_false, not_or]
  constructor
  · rintro ⟨hall, hany, hnot⟩
    refine ⟨fun c => ?_, hnot⟩
    cases c with
    | all => exact hall
    | any => exact hany
  · rintro ⟨hparts, hnot⟩
    exact ⟨hparts .all, hparts .any, hnot⟩

/-- All other bases with the sign of a keyword are names of comparators. -/
theorem ofBase_eq_document_iff {name : Marked} :
    ofBase base = .document name ↔
      base.toList.head? = some '$' ∧ base ∉ ["$and", "$or", "$not"] ∧ name = Marked.ofKey base := by
  rw [not_mem_reserved_iff]
  unfold ofBase
  split
  · rename_i c hkeyword
    exact iff_of_false nofun fun h => h.2.1.1 c hkeyword
  · rename_i hkeyword
    exact iff_of_false nofun fun h => h.2.1.2 hkeyword
  · rename_i hparts hnot
    split
    · rename_i hsign
      rw [Target.document.injEq]
      exact ⟨fun h => ⟨hsign, ⟨hparts, hnot⟩, h.symm⟩, fun h => h.2.2.symm⟩
    · rename_i hsign
      exact iff_of_false nofun fun h => hsign h.1

/-- Whatever does not begin with the sign of a keyword is the path of a field. -/
theorem ofBase_eq_field_iff {path : String} :
    ofBase base = .field path ↔ base.toList.head? ≠ some '$' ∧ path = base := by
  have hsign {keyword : Keyword} (h : Keyword.ofName? base = some keyword) :
      base.toList.head? = some '$' := by
    rw [Keyword.ofName?_eq_some_iff.mp h]
    exact keyword.head?_name
  unfold ofBase
  split
  · rename_i c hkeyword
    exact iff_of_false nofun fun h => h.1 (hsign hkeyword)
  · rename_i hkeyword
    exact iff_of_false nofun fun h => h.1 (hsign hkeyword)
  · split
    · rename_i hdollar
      exact iff_of_false nofun fun h => h.1 hdollar
    · rename_i hdollar
      rw [Target.field.injEq]
      exact ⟨fun h => ⟨hdollar, h.symm⟩, fun h => h.2.symm⟩

end Target

end Base

theorem Comparator.relation_ofName_ne_not {name : Marked}
    (h : name.keyword ≠ some (.relation .not)) : (ofName name).relation ≠ some .not := by
  obtain ⟨written, base, keyword, negated⟩ := name
  rcases keyword with _ | ⟨c⟩ | ⟨relation⟩
  · nofun
  · nofun
  · intro hrelation
    cases hrelation
    exact h rfl

/-- What the two readings find in a key of so many marks before a base. Both count the marks alike.
The base decides what a member asks about: sub-queries under the three names that stand for them,
the whole document under all other names of a comparator, and otherwise a field. A comparator for
the whole document is read from the base, so that marks turn the answer of the member only; and it
is never negation. -/
structure KeyReadings (key : String) (marks : Nat) (base : String) : Prop where
  eq_marked : key = marked marks base
  no_mark : base.toList.head? ≠ some '!'
  name_base : (Marked.ofKey key).base = base
  name_negated : (Marked.ofKey key).negated = (marks % 2 == 1)
  member_negated : (MemberKey.ofKey key).negated = (marks % 2 == 1)
  parts_iff : ∀ c, (MemberKey.ofKey key).target = .parts c ↔
    (Marked.ofKey key).keyword = some (.connective c)
  opposite_iff : (MemberKey.ofKey key).target = .opposite ↔
    (Marked.ofKey key).keyword = some (.relation .not)
  document_iff : ∀ name, (MemberKey.ofKey key).target = .document name ↔
    base.toList.head? = some '$' ∧ base ∉ ["$and", "$or", "$not"] ∧ name = Marked.ofKey base
  base_name : Marked.ofKey base = ⟨base, base, (Marked.ofKey key).keyword, false⟩
  field_iff : ∀ path, (MemberKey.ofKey key).target = .field path ↔
    base.toList.head? ≠ some '$' ∧ path = base
  comparator : ∀ name, (MemberKey.ofKey key).target = .document name →
    (Comparator.ofName name).relation ≠ some .not ∧ (Comparator.ofName name).negated = false

/-- Every key has a base behind its marks, and the two readings of it agree. -/
theorem key_readings_agree (key : String) :
    ∃ (marks : Nat) (base : String), KeyReadings key marks base := by
  obtain ⟨marks, base, rfl, hbase⟩ := exists_eq_marked key
  have hname : Marked.ofKey (marked marks base) =
      ⟨marked marks base, base, Keyword.ofName? base, marks % 2 == 1⟩ := by
    rw [Marked.ofKey_marked, Marked.ofKey_base hbase, Bool.false_bne]
  have hmember : MemberKey.ofKey (marked marks base) = ⟨.ofBase base, marks % 2 == 1⟩ := by
    rw [MemberKey.ofKey_marked, MemberKey.ofKey_base hbase, Bool.false_bne]
  exact ⟨marks, base,
    { eq_marked := rfl
      no_mark := hbase
      name_base := by rw [hname]
      name_negated := by rw [hname]
      member_negated := by rw [hmember]
      parts_iff := by
        rw [hname, hmember]
        exact fun c => Target.ofBase_eq_parts_iff
      opposite_iff := by
        rw [hname, hmember]
        exact Target.ofBase_eq_opposite_iff
      document_iff := by
        rw [hmember]
        exact fun name => Target.ofBase_eq_document_iff
      base_name := by
        rw [hname]
        exact Marked.ofKey_base hbase
      field_iff := by
        rw [hmember]
        exact fun path => Target.ofBase_eq_field_iff
      comparator := by
        rw [hmember]
        intro name htarget
        have hrelation := Comparator.relation_ofName_ne_not (Target.keyword_ne_not htarget)
        obtain ⟨-, -, rfl⟩ := Target.ofBase_eq_document_iff.mp htarget
        refine ⟨hrelation, ?_⟩
        rw [Marked.ofKey_base hbase]
        rfl }⟩

/-- Three marks before the name of a test turn the member, and the test is read without them. -/
theorem key_readings_agree_three_marks :
    (MemberKey.ofKey "!!!$in").target =
        .document ⟨"$in", "$in", some (.relation (.test .isIn)), false⟩ ∧
      (Comparator.ofName ⟨"$in", "$in", some (.relation (.test .isIn)), false⟩).relation ≠
        some .not ∧
      (Comparator.ofName ⟨"$in", "$in", some (.relation (.test .isIn)), false⟩).negated = false := by
  obtain ⟨marks, base, hreadings⟩ := key_readings_agree "!!!$in"
  have htarget : (MemberKey.ofKey "!!!$in").target =
      .document ⟨"$in", "$in", some (.relation (.test .isIn)), false⟩ := by decide
  exact ⟨htarget, hreadings.comparator _ htarget⟩

end DocQuery.Query
