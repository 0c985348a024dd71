import DocQuery.Proofs.Budget
import DocQuery.Proofs.Operands
import DocQuery.Query.Wrapped
import DocQuery.Value.Doubles

/-! A query is answered as the rules say. Two readings that no canonical expectation tells apart
give it one meaning, and what paths lead to in a document that has been built has been built as
well. What NaN counts as against an integer is left open: it is one and the same number, or none,
throughout. -/

namespace DocQuery

theorem Members.mem_of_lookup {members : List (String × Value)} {key : String} {value : Value}
    (h : members.lookup key = some value) : (key, value) ∈ members := by
  obtain ⟨before, after, rfl, -⟩ := List.lookup_eq_some_iff.mp h
  exact List.mem_append_right before List.mem_cons_self

theorem Value.doubles_subset_of_mem {members : List (String × Value)} {member : String × Value}
    (h : member ∈ members) : member.2.doubles ⊆ memberDoubles members := by
  induction h with
  | head => exact List.subset_append_left _ _
  | tail _ _ ih => exact List.Subset.trans ih (List.subset_append_right _ _)

namespace Path

/-- What keys lead to in a canonical value is canonical. -/
theorem canonical_follow {value found : Value} {keys : List String} (hvalue : value.Canonical)
    (h : follow value keys = some found) : found.Canonical := by
  fun_induction follow value keys with
  | case1 value =>
    cases h
    exact hvalue
  | case2 members key keys ih =>
    obtain ⟨next, hlookup, hnext⟩ := Option.bind_eq_some_iff.mp h
    have hmember := Members.mem_of_lookup hlookup
    exact ih next (Value.canonicalMembers_iff.mp hvalue.2 _ hmember) hnext
  | case3 => cases h

/-- The doubles in what keys lead to are doubles of the whole. -/
theorem doubles_follow {value found : Value} {keys : List String}
    (h : follow value keys = some found) : found.doubles ⊆ value.doubles := by
  fun_induction follow value keys with
  | case1 value =>
    cases h
    exact List.Subset.refl _
  | case2 members key keys ih =>
    obtain ⟨next, hlookup, hnext⟩ := Option.bind_eq_some_iff.mp h
    have hmember := Members.mem_of_lookup hlookup
    exact List.Subset.trans (ih next hnext) (Value.doubles_subset_of_mem hmember)
  | case3 => cases h

end Path

namespace Query

open Value (CanonicalItems CanonicalMembers)

/-- Comparisons that say the same of an actual operand, whatever canonical one is expected. -/
structure Comparison.AgreeOn (comparison other : Comparison) (actual : Value) : Prop where
  same : ∀ expected : Value, expected.Canonical →
    comparison.same actual expected = other.same actual expected
  order : ∀ expected : Value, comparison.order actual expected = other.order actual expected

namespace Comparison.AgreeOn

variable {comparison other : Comparison} {actual expected : Value}

/-- What is expected of an array is expected of its items. -/
theorem any_same (h : comparison.AgreeOn other actual) {items : List Value}
    (hitems : CanonicalItems items) :
    (items.any fun item => comparison.same actual item) =
      items.any fun item => other.same actual item := by
  induction items with
  | nil => rfl
  | cons item items ih => rw [List.any_cons, List.any_cons, h.same item hitems.1, ih hitems.2]

theorem verdict_eq (h : comparison.AgreeOn other actual) (hexpected : expected.Canonical)
    (relation : Relation) :
    comparison.verdict actual expected relation = other.verdict actual expected relation := by
  rcases relation with test | _
  · cases test with
    | is => exact congrArg Except.ok (h.same expected hexpected)
    | isIn =>
      cases expected with
      | arr items => exact congrArg Except.ok (h.any_same hexpected)
      | null | bool | int | float | str | obj => rfl
    | gt | gte | lt | lte => simp only [verdict, h.order]
  · cases expected with
    | arr items => exact congrArg (fun found => Except.ok !found) (h.any_same hexpected)
    | null | bool | int | float | str | obj =>
      exact congrArg (fun found => Except.ok !found) (h.same _ hexpected)

theorem nameMeaning_eq (h : comparison.AgreeOn other actual) (hexpected : expected.Canonical)
    (name : String) (cs : List Char) :
    comparison.nameMeaning name actual expected cs =
      other.nameMeaning name actual expected cs := by
  fun_induction nameMeaning comparison name actual expected cs with
  | case1 rest ih => rw [ih, nameMeaning]
  | case2 base hne relation hrelation =>
    rw [nameMeaning.eq_2 _ _ _ _ _ hne, hrelation]
    exact h.verdict_eq hexpected relation
  | case3 base hne hrelation => rw [nameMeaning.eq_2 _ _ _ _ _ hne, hrelation]

theorem expectationMeaning_eq (h : comparison.AgreeOn other actual)
    (hexpected : expected.Canonical) (path : String) :
    comparison.expectationMeaning path actual expected =
      other.expectationMeaning path actual expected := by
  cases expected with
  | null | bool => rfl
  | int | float | str => exact congrArg Except.ok (h.same _ hexpected)
  | arr items => exact congrArg Except.ok (h.any_same hexpected)
  | obj members =>
    rcases members with _ | ⟨⟨name, operand⟩, _ | ⟨second, rest⟩⟩
    · rfl
    · exact h.nameMeaning_eq hexpected.2.1 name name.toList
    · rfl

end Comparison.AgreeOn

/-- Readings of one document that find the same in its fields, and whose comparisons agree on what
they find. -/
structure Reading.Agree (reading other : Reading) : Prop where
  document : reading.document = other.document
  field : ∀ path, reading.field path = other.field path
  whole : reading.comparison.AgreeOn other.comparison (.obj reading.document)
  found : ∀ path, reading.comparison.AgreeOn other.comparison (reading.field path)

namespace Reading.Agree

variable {reading other : Reading}

theorem entryMeaning_eq (h : reading.Agree other) {expectation : Value}
    (hexpectation : expectation.Canonical) {sub alike : Connective → Except MatchError Bool}
    (hsub : ∀ c, sub c = alike c) (key : List Char) :
    reading.entryMeaning expectation sub key = other.entryMeaning expectation alike key := by
  obtain rfl : sub = alike := funext hsub
  -- mark by mark on both sides, up to the key that is left
  fun_induction MemberKey.unmark key with
  | case1 key negated rest hrest ih => rw [Reading.entryMeaning, Reading.entryMeaning, ih]
  | case2 key hne =>
    have hname := h.whole.nameMeaning_eq hexpectation (String.ofList key) key
    have hfield := (h.found (String.ofList key)).expectationMeaning_eq hexpectation
      (String.ofList key)
    rw [h.document] at hname
    rw [h.field] at hfield
    rw [Reading.entryMeaning.eq_2 _ _ _ _ hne, Reading.entryMeaning.eq_2 _ _ _ _ hne, h.document,
      h.field, hname, hfield]

mutual

theorem meaning_eq (h : reading.Agree other) (c : Connective) : (query : Value) →
    query.Canonical → reading.meaning c query = other.meaning c query
  | .obj members, hmembers => membersMeaning_eq h c members hmembers.2
  | .arr items, hitems => itemsMeaning_eq h c items hitems
  | .null, _ | .bool _, _ | .int _, _ | .float _, _ | .str _, _ => rfl

theorem membersMeaning_eq (h : reading.Agree other) (c : Connective) :
    (members : List (String × Value)) → CanonicalMembers members →
    reading.membersMeaning c members = other.membersMeaning c members
  | [], _ => rfl
  | (key, expectation) :: members, hmembers => by
    have hentry := h.entryMeaning_eq hmembers.1
      (fun c => meaning_eq h c expectation hmembers.1) key.toList
    rw [Reading.membersMeaning, Reading.membersMeaning, hentry,
      membersMeaning_eq h c members hmembers.2]

theorem itemsMeaning_eq (h : reading.Agree other) (c : Connective) : (items : List Value) →
    CanonicalItems items → reading.itemsMeaning c items = other.itemsMeaning c items
  | [], _ => rfl
  | item :: items, hitems => by
    rw [Reading.itemsMeaning, Reading.itemsMeaning, meaning_eq h .all item hitems.1,
      itemsMeaning_eq h c items hitems.2]

end

end Reading.Agree

namespace Coercion

variable {coercion : Coercion}

/-- Integers widen to the doubles that they round to. -/
def rounding (narrow : Double → Option Exact) : Coercion where
  widen n := .ofInt n.toInt
  nearest n := Double.isNearest_ofInt n.toInt
  narrow

theorem agreeOn_byValue (h : coercion.Saturates) {actual : Value} (hactual : actual.Canonical)
    (hnan : .nan ∈ actual.doubles → coercion.narrow .nan = some (.ofRat (0 : Int))) :
    (⟨Rules.same, coercion.order⟩ : Comparison).AgreeOn .byValue actual where
  same expected hexpected := Rules.same_eq_equals actual expected hactual hexpected
  order := order_eq h fun hactual => hnan (hactual ▸ List.mem_singleton_self _)

/-- The rules and an evaluation read a document alike. -/
theorem reading_agree (h : coercion.Saturates) (separator : Char) (document : CanonicalDocument)
    (hnan : .nan ∈ (Value.obj document.members).doubles →
      coercion.narrow .nan = some (.ofRat (0 : Int))) :
    (coercion.reading separator document.members).Agree
      (Subject.reading ⟨document.members, separator⟩) where
  document := rfl
  field path := congrArg (·.getD .null) (Rules.resolve_eq separator path document.members)
  whole := agreeOn_byValue h document.canonical hnan
  found path := by
    rw [reading]
    dsimp only
    rw [Rules.resolve_eq]
    cases hfound : document.members.resolve separator path with
    -- what is missing is null to both
    | none => exact agreeOn_byValue h trivial nofun
    | some found =>
      have hfollow : Path.follow (.obj document.members)
          ((Path.ofString separator path).first :: (Path.ofString separator path).rest) =
            some found := hfound
      exact agreeOn_byValue h (Path.canonical_follow document.canonical hfollow)
        fun hmem => hnan (Path.doubles_follow hfollow hmem)

end Coercion

/-- Queries are answered as the rules say, whenever the limit leaves two levels for each container
of the query and one for its innermost part. Doubles have to count as their whole part against
integers, as far as the integers go; it does not matter how a nearest double to an integer is found.
-/
theorem satisfied_follows_rules : ∃ atNaN : Option Exact,
    ∀ (coercion : Coercion) (options : Options) (query : CanonicalValue)
      (document : CanonicalDocument), coercion.Saturates →
      (.nan ∈ (Value.obj document.members).doubles → coercion.narrow .nan = atNaN) →
      2 * query.value.height + 1 ≤ options.maxDepth →
      satisfied options query.value document.members =
        (coercion.reading options.separator document.members).meaning .all query.value := by
  -- the number that truncation makes of NaN
  refine ⟨some (.ofRat (0 : Int)), ?_⟩
  intro coercion options query document hsaturates hnan hlimit
  have hagree := Coercion.reading_agree hsaturates options.separator document hnan
  rw [satisfied_eq_meaning options query.value document.members hlimit,
    hagree.meaning_eq .all query.value query.canonical]

theorem satisfied_follows_rules_marked :
    let coercion : Coercion := .rounding fun x => x.exactValue?.map fun e => e.wholePart.clamped
    let query : CanonicalValue :=
      .assembled (.obj [("!!$or", .arr [.obj [("a.b", .obj [("!$gt", .int 1)])]])])
    let document : CanonicalDocument := .assembled [("a", .obj [("b", .float (.infinite false))])]
    coercion.Saturates ∧ .nan ∉ (Value.obj document.members).doubles ∧
    2 * query.value.height + 1 ≤ 11 ∧
    satisfied ⟨11, '.'⟩ query.value document.members =
      (coercion.reading '.' document.members).meaning .all query.value := by
  intro coercion query document
  obtain ⟨atNaN, hrules⟩ := satisfied_follows_rules
  have hsaturates : coercion.Saturates := fun x e he => congrArg (Option.map _) he
  have hnan : .nan ∉ (Value.obj document.members).doubles := by decide
  have hlimit : 2 * query.value.height + 1 ≤ 11 := by decide
  exact ⟨hsaturates, hnan, hlimit,
    hrules coercion ⟨11, '.'⟩ query document hsaturates (fun h => absurd h hnan) hlimit⟩

end Query

theorem Exact.wholePart_ofRat_intCast (n : Int) : (ofRat n).wholePart = ofRat n := by
  have hdiv := wholePart_ofRat_div n Nat.one_pos
  rw [Nat.cast_one, div_one, Nat.cast_one, Int.tdiv_one] at hdiv
  exact hdiv

/-- 2⁶³, which is one more than the last of the integers. -/
def Double.pastIntegers : Double := .finite false ⟨1086 <<< 52, by decide⟩

theorem Double.exactValue?_pastIntegers :
    pastIntegers.exactValue? = some (.ofRat (2 ^ 63 : Int)) := by
  have hunits : (unitsAt (1086 <<< 52) : Int) = 2 ^ 63 * unitsPerOne := by decide +kernel
  have hne : (unitsPerOne : ℚ) ≠ 0 := Nat.cast_ne_zero.mpr (Nat.ne_of_gt unitsPerOne_pos)
  calc
    pastIntegers.exactValue?
      = some (.ofRat ((unitsAt (1086 <<< 52) : Int) / unitsPerOne)) := rfl
    _ = some (.ofRat (2 ^ 63 : Int)) := by
      rw [hunits, Int.cast_mul, Int.cast_natCast, mul_div_cancel_right₀ _ hne]

namespace Query

/-- As its whole part 2⁶³ is greater than every integer. -/
theorem Coercion.order_pastIntegers {coercion : Coercion} (h : coercion.Truncates) :
    coercion.order (.float .pastIntegers) (.int Int64.maxValue) = .ok (some .gt) := by
  have hgreater : cmp (Exact.ofRat (2 ^ 63 : Int)) (.ofRat Int64.maxValue.toInt) = .gt := by
    rw [Exact.cmp_ofRat]
    rfl
  calc
    coercion.order (.float .pastIntegers) (.int Int64.maxValue)
      = .ok (compare? (coercion.narrow .pastIntegers) (some (.ofRat Int64.maxValue.toInt))) := rfl
    _ = .ok (some (cmp (Exact.ofRat (2 ^ 63 : Int)) (.ofRat Int64.maxValue.toInt))) := by
      rw [h, Double.exactValue?_pastIntegers, Option.map_some, Exact.wholePart_ofRat_intCast]
      rfl
    _ = .ok (some .gt) := by rw [hgreater]

/-- Without the bounds of the integers the rules would find 2⁶³ greater than the last of them. An
evaluation does not, since to it no double counts as more than that. -/
theorem not_satisfied_past_integers :
    ¬ (∀ (coercion : Coercion) (options : Options) (query : CanonicalValue)
      (document : CanonicalDocument), coercion.Truncates →
      .nan ∉ (Value.obj document.members).doubles →
      2 * query.value.height + 1 ≤ options.maxDepth →
      satisfied options query.value document.members =
        (coercion.reading options.separator document.members).meaning .all query.value) ∧
    satisfied {} (keyed "a" (keyed "$gt" (.int Int64.maxValue))) [("a", .float .pastIntegers)] =
      .ok false := by
  have hanswer : satisfied {} (keyed "a" (keyed "$gt" (.int Int64.maxValue)))
      [("a", .float .pastIntegers)] = .ok false := by decide +kernel
  refine ⟨fun hrules => ?_, hanswer⟩
  let coercion : Coercion := .rounding fun x => x.exactValue?.map Exact.wholePart
  have hmeaning :=
    hrules coercion {} (.assembled (keyed "a" (keyed "$gt" (.int Int64.maxValue))))
      (.assembled [("a", .float .pastIntegers)]) (fun x => rfl) (by decide) (by decide)
  have hyes : (coercion.reading '.' [("a", .float .pastIntegers)]).meaning .all
      (keyed "a" (keyed "$gt" (.int Int64.maxValue))) = .ok true := by
    have horder := coercion.order_pastIntegers fun x => rfl
    -- the field is found, and its test of order is all that the query asks
    change Connective.combine .all
      ((coercion.order (.float .pastIntegers) (.int Int64.maxValue)).map (· == some .gt))
      (.ok true) = _
    rw [horder]
    rfl
  cases (hanswer.symm.trans hmeaning).trans hyes

end Query

end DocQuery
