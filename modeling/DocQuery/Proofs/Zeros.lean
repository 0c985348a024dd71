import DocQuery.Proofs.Budget
import DocQuery.Value.Members
import DocQuery.Value.Zeros

/-! Equal queries are answered alike on equal documents. Values are equal only if they differ in the
signs of zeros, and no answer depends on those. -/

namespace DocQuery

namespace Double

theorem unitsAt_inj {a b : Nat} (h : unitsAt a = unitsAt b) : a = b := by
  rcases Nat.lt_trichotomy a b with hlt | heq | hgt
  · exact absurd h (Nat.ne_of_lt (unitsAt_lt hlt))
  · exact heq
  · exact absurd h.symm (Nat.ne_of_lt (unitsAt_lt hgt))

theorem signed_inj {m n : Bool} {a b : Nat} (h : signed m a = signed n b) :
    a = b ∧ (m = n ∨ a = 0) := by
  cases m <;> cases n <;> simp [signed] at h ⊢ <;> omega

/-- Zero has no sign as a number of units. -/
theorem units?_unsignZero (x : Double) : x.unsignZero.units? = x.units? := by
  cases x with
  | nan | infinite => rfl
  | finite negative rank =>
    by_cases hzero : rank.val = 0
    · have hunits : unitsAt rank = 0 := by rw [hzero]; rfl
      simp only [unsignZero, units?, hunits]
      cases negative <;> simp [signed]
    · have hsign : (rank.val != 0) = true := bne_iff_ne.mpr hzero
      rw [unsignZero, hsign, Bool.and_true]

theorem compare?_unsignZero (x y : Double) : x.unsignZero.compare? y.unsignZero = x.compare? y := by
  simp only [compare?, units?_unsignZero]

theorem equals_iff {x y : Double} :
    x.equals y = true ↔ ∃ units, x.units? = some units ∧ y.units? = some units := by
  unfold equals compare?
  cases hx : x.units? with
  | none => simp
  | some u =>
    cases hy : y.units? with
    | none => simp
    | some v =>
      have hcompare : ((some u).bind fun u => (some v).bind fun v => some (compare u v)) ==
          some Ordering.eq ↔ u = v := by
        simp [Option.bind_some]
      refine hcompare.trans ⟨fun h => ⟨v, congrArg some h, rfl⟩, ?_⟩
      rintro ⟨units, hu, hv⟩
      exact (Option.some.inj hu).trans (Option.some.inj hv).symm

theorem unsignZero_eq_of_equals {x y : Double} (h : x.equals y = true) :
    x.unsignZero = y.unsignZero := by
  obtain ⟨units, hx, hy⟩ := equals_iff.mp h
  -- the infinities stand one rank past the finite magnitudes
  have hpast (rank : Fin rankCount) : unitsAt rank < unitsAt rankCount := unitsAt_lt rank.isLt
  have hpos : unitsAt rankCount ≠ 0 := Nat.ne_of_gt (Nat.lt_of_le_of_lt (Nat.zero_le _)
    (hpast ⟨0, by decide⟩))
  cases x with
  | nan => cases hx
  | infinite m =>
    cases y with
    | nan => cases hy
    | infinite n =>
      obtain ⟨-, hsign | hzero⟩ := signed_inj (Option.some.inj (hx.trans hy.symm))
      · rw [hsign]
      · exact absurd hzero hpos
    | finite n rank =>
      obtain ⟨hunits, -⟩ := signed_inj (Option.some.inj (hx.trans hy.symm))
      exact absurd hunits.symm (Nat.ne_of_lt (hpast rank))
  | finite m rank =>
    cases y with
    | nan => cases hy
    | infinite n =>
      obtain ⟨hunits, -⟩ := signed_inj (Option.some.inj (hx.trans hy.symm))
      exact absurd hunits (Nat.ne_of_lt (hpast rank))
    | finite n other =>
      obtain ⟨hunits, hsign⟩ := signed_inj (Option.some.inj (hx.trans hy.symm))
      obtain rfl : rank = other := Fin.ext (unitsAt_inj hunits)
      rcases hsign with hsign | hzero
      · rw [hsign]
      · have hrank : rank.val = 0 := unitsAt_inj (hzero.trans (by rfl : (0 : Nat) = unitsAt 0))
        simp [unsignZero, hrank]

end Double

namespace Value

theorem length_unsignMembers (members : List (String × Value)) :
    (unsignMembers members).length = members.length := by
  induction members with
  | nil => rfl
  | cons member members ih => rw [unsignMembers, List.length_cons, ih, List.length_cons]

theorem lookup_unsignMembers (members : List (String × Value)) (key : String) :
    (unsignMembers members).lookup key = (members.lookup key).map unsignZeros := by
  induction members with
  | nil => rfl
  | cons member members ih =>
    obtain ⟨own, value⟩ := member
    rw [unsignMembers, Members.lookup_cons, Members.lookup_cons, ih]
    split <;> rfl

mutual

theorem equals_unsignZeros : (v w : Value) → v.unsignZeros.equals w.unsignZeros = v.equals w
  | .float x, w => by
    cases w <;> simp only [unsignZeros, equals]
    simp only [Double.equals, Double.compare?_unsignZero]
  | .arr items, w => by
    cases w <;> simp only [unsignZeros, equals]
    exact equalItems_unsignItems items _
  | .obj members, w => by
    cases w <;> simp only [unsignZeros, equals]
    exact equalMembers_unsignMembers members _
  | .null, w | .bool _, w | .int _, w | .str _, w => by
    cases w <;> simp only [unsignZeros, equals]

theorem equalItems_unsignItems : (xs ys : List Value) →
    equalItems (unsignItems xs) (unsignItems ys) = equalItems xs ys
  | [], [] | [], _ :: _ | _ :: _, [] => by simp only [unsignItems, equalItems]
  | x :: xs, y :: ys => by
    rw [unsignItems, unsignItems, equalItems, equalItems, equals_unsignZeros x y,
      equalItems_unsignItems xs ys]

theorem equalMembers_unsignMembers : (xs ys : List (String × Value)) →
    equalMembers (unsignMembers xs) (unsignMembers ys) = equalMembers xs ys
  | [], [] | [], _ :: _ | _ :: _, [] => by simp only [unsignMembers, equalMembers]
  | (j, x) :: xs, (k, y) :: ys => by
    rw [unsignMembers, unsignMembers, equalMembers, equalMembers, equals_unsignZeros x y,
      equalMembers_unsignMembers xs ys]

end

mutual

/-- Values that are equal are the same but for the signs of zeros. -/
theorem unsignZeros_eq_of_equals : (v w : Value) → v.equals w = true →
    v.unsignZeros = w.unsignZeros
  | .float x, w, h => by
    cases w <;> simp only [equals, Bool.false_eq_true] at h
    simp only [unsignZeros, Double.unsignZero_eq_of_equals h]
  | .arr items, w, h => by
    cases w <;> simp only [equals, Bool.false_eq_true] at h
    simp only [unsignZeros, unsignItems_eq_of_equalItems items _ h]
  | .obj members, w, h => by
    cases w <;> simp only [equals, Bool.false_eq_true] at h
    simp only [unsignZeros, unsignMembers_eq_of_equalMembers members _ h]
  | .null, w, h | .bool _, w, h | .int _, w, h | .str _, w, h => by
    cases w <;> simp only [equals, Bool.false_eq_true, beq_iff_eq] at h
    all_goals simp only [h]

theorem unsignItems_eq_of_equalItems : (xs ys : List Value) → equalItems xs ys = true →
    unsignItems xs = unsignItems ys
  | [], [], _ => rfl
  | x :: xs, y :: ys, h => by
    obtain ⟨hitem, hitems⟩ := Bool.and_eq_true_iff.mp h
    rw [unsignItems, unsignItems, unsignZeros_eq_of_equals x y hitem,
      unsignItems_eq_of_equalItems xs ys hitems]

theorem unsignMembers_eq_of_equalMembers : (xs ys : List (String × Value)) →
    equalMembers xs ys = true → unsignMembers xs = unsignMembers ys
  | [], [], _ => rfl
  | (j, x) :: xs, (k, y) :: ys, h => by
    obtain ⟨hmember, hmembers⟩ := Bool.and_eq_true_iff.mp h
    obtain ⟨hkey, hvalue⟩ := Bool.and_eq_true_iff.mp hmember
    rw [unsignMembers, unsignMembers, beq_iff_eq.mp hkey, unsignZeros_eq_of_equals x y hvalue,
      unsignMembers_eq_of_equalMembers xs ys hmembers]

end

theorem order_unsignZeros (actual expected : Value) :
    actual.unsignZeros.order expected.unsignZeros = actual.order expected := by
  have htruncate (x : Double) : x.unsignZero.truncate = x.truncate := by
    simp only [Double.truncate, Double.units?_unsignZero]
  cases expected with
  | int n => cases actual <;> simp only [order, unsignZeros, toInt?, htruncate]
  | float y =>
    cases actual <;>
      simp only [order, unsignZeros, toDouble?, Double.compare?, Double.units?_unsignZero]
  | null | bool | str | arr | obj => rfl

end Value

theorem Path.follow_unsignZeros (keys : List String) (v : Value) :
    follow v.unsignZeros keys = (follow v keys).map Value.unsignZeros := by
  induction keys generalizing v with
  | nil => cases v <;> rfl
  | cons key keys ih =>
    cases v with
    | obj members =>
      simp only [Value.unsignZeros, follow, Value.lookup_unsignMembers]
      cases members.lookup key with
      | none => rfl
      | some value => exact ih value
    | null | bool | int | float | str | arr => rfl

theorem Document.resolve_unsignMembers (separator : Char) (path : String) (document : Document) :
    Document.resolve separator path (Value.unsignMembers document) =
      (document.resolve separator path).map Value.unsignZeros := by
  unfold Document.resolve Path.find?
  rw [Value.lookup_unsignMembers]
  cases List.lookup (Path.ofString separator path).first document with
  | none => rfl
  | some value => exact Path.follow_unsignZeros _ value

namespace Query

open Value (unsignItems unsignMembers)

theorem any_equals_unsignItems (actual : Value) (items : List Value) :
    ((unsignItems items).any fun item => actual.unsignZeros.equals item) =
      items.any fun item => actual.equals item := by
  induction items with
  | nil => rfl
  | cons item items ih =>
    rw [unsignItems, List.any_cons, List.any_cons, ih, Value.equals_unsignZeros]

theorem Comparison.verdict_unsignZeros (actual expected : Value) (relation : Relation) :
    Comparison.byValue.verdict actual.unsignZeros expected.unsignZeros relation =
      Comparison.byValue.verdict actual expected relation := by
  rcases relation with ⟨test⟩ | _
  · cases test with
    | is => simp only [verdict, byValue, Value.equals_unsignZeros]
    | isIn =>
      cases expected with
      | arr items => simp only [verdict, byValue, Value.unsignZeros, any_equals_unsignItems]
      | null | bool | int | float | str | obj => rfl
    | gt | gte | lt | lte => simp only [verdict, byValue, Value.order_unsignZeros]
  · cases expected with
    | arr items => simp only [verdict, byValue, Value.unsignZeros, any_equals_unsignItems]
    | null | bool | int | float | str | obj =>
      exact congrArg (fun holds => Except.ok !holds) (Value.equals_unsignZeros actual _)

namespace Comparator

theorem verdict_unsignZeros (comparator : Comparator) (actual expected : Value) :
    comparator.verdict actual.unsignZeros expected.unsignZeros =
      comparator.verdict actual expected := by
  simp only [verdict, Comparison.verdict_unsignZeros]

theorem ofExpectation_unsignZeros (path : String) (expectation : Value) :
    ofExpectation path expectation.unsignZeros =
      (ofExpectation path expectation).map fun named => (named.1, named.2.unsignZeros) := by
  cases expectation with
  | obj members =>
    rcases members with _ | ⟨⟨name, operand⟩, _ | ⟨second, rest⟩⟩
    · rfl
    · rfl
    · simp only [Value.unsignZeros, unsignMembers, ofExpectation, List.length_cons,
        Value.length_unsignMembers]
      rfl
  | null | bool | int | float | str | arr => rfl

end Comparator

namespace Subject

/-- The subject with zero in place of minus zero in its document. -/
def unsignZeros (subject : Subject) : Subject :=
  { subject with document := unsignMembers subject.document }

variable (subject : Subject)

theorem fieldValue_unsignZeros (path : String) :
    subject.unsignZeros.fieldValue path = (subject.fieldValue path).unsignZeros := by
  unfold fieldValue unsignZeros
  rw [Document.resolve_unsignMembers]
  cases subject.document.resolve subject.separator path <;> rfl

theorem expectationMeaning_unsignZeros (path : String) (actual expectation : Value) :
    Comparison.byValue.expectationMeaning path actual.unsignZeros expectation.unsignZeros =
      Comparison.byValue.expectationMeaning path actual expectation := by
  rw [Comparison.expectationMeaning_eq, Comparison.expectationMeaning_eq,
    Comparator.ofExpectation_unsignZeros]
  cases Comparator.ofExpectation path expectation with
  | error e => rfl
  | ok named => exact named.1.verdict_unsignZeros actual named.2

theorem targetMeaning_unsignZeros (expectation : Value) (sub : Connective → Except MatchError Bool)
    (target : Target) :
    subject.unsignZeros.targetMeaning expectation.unsignZeros sub target =
      subject.targetMeaning expectation sub target := by
  cases target with
  | parts c => rfl
  | opposite => rfl
  | document name =>
    have hdocument :=
      Comparator.verdict_unsignZeros (.ofName name) (.obj subject.document) expectation
    exact hdocument
  | field path =>
    rw [targetMeaning, leafMeaning, fieldValue_unsignZeros, expectationMeaning_unsignZeros]
    rfl

theorem targetLevels_unsignZeros (expectation : Value) (sub : Connective → Nat) (target : Target) :
    target.levels expectation.unsignZeros sub = target.levels expectation sub := by
  cases target with
  | parts c => rfl
  | opposite => rfl
  | document name => rfl
  | field path =>
    simp only [Target.levels, Leaf.levels, Comparator.ofExpectation_unsignZeros]
    cases Comparator.ofExpectation path expectation <;> rfl

mutual

theorem meaning_unsignZeros (c : Connective) : (query : Value) →
    subject.unsignZeros.reading.meaning c query.unsignZeros = subject.reading.meaning c query
  | .obj members => membersMeaning_unsignMembers c members
  | .arr items => itemsMeaning_unsignItems c items
  | .null | .bool _ | .int _ | .float _ | .str _ => rfl

theorem membersMeaning_unsignMembers (c : Connective) : (members : List (String × Value)) →
    subject.unsignZeros.reading.membersMeaning c (unsignMembers members) =
      subject.reading.membersMeaning c members
  | [] => rfl
  | (key, expectation) :: members => by
    have hsub : (fun c => subject.unsignZeros.reading.meaning c expectation.unsignZeros) =
        fun c => subject.reading.meaning c expectation :=
      funext fun c => meaning_unsignZeros c expectation
    rw [unsignMembers, Reading.membersMeaning, Reading.membersMeaning, entryMeaning_toList,
      entryMeaning_toList, targetMeaning_unsignZeros, hsub, membersMeaning_unsignMembers c members]

theorem itemsMeaning_unsignItems (c : Connective) : (items : List Value) →
    subject.unsignZeros.reading.itemsMeaning c (unsignItems items) =
      subject.reading.itemsMeaning c items
  | [] => rfl
  | item :: items => by
    rw [unsignItems, Reading.itemsMeaning, Reading.itemsMeaning, meaning_unsignZeros .all item,
      itemsMeaning_unsignItems c items]

end

theorem entryMeaning_unsignZeros (expectation : Value) (key : String) :
    subject.unsignZeros.reading.entryMeaning expectation.unsignZeros
        (fun c => subject.unsignZeros.reading.meaning c expectation.unsignZeros) key.toList =
      subject.reading.entryMeaning expectation (fun c => subject.reading.meaning c expectation)
        key.toList := by
  simp only [entryMeaning_toList, targetMeaning_unsignZeros, meaning_unsignZeros]

mutual

theorem levels_unsignZeros (c : Connective) : (query : Value) →
    subject.unsignZeros.levels c query.unsignZeros = subject.levels c query
  | .obj members => congrArg (· + 1) (membersLevels_unsignMembers c members)
  | .arr items => congrArg (· + 1) (itemsLevels_unsignItems c items)
  | .null | .bool _ | .int _ | .float _ | .str _ => rfl

theorem membersLevels_unsignMembers (c : Connective) : (members : List (String × Value)) →
    subject.unsignZeros.membersLevels c (unsignMembers members) = subject.membersLevels c members
  | [] => rfl
  | (key, expectation) :: members => by
    have hsub : (fun c => subject.unsignZeros.levels c expectation.unsignZeros) =
        fun c => subject.levels c expectation :=
      funext fun c => levels_unsignZeros c expectation
    rw [unsignMembers, membersLevels, membersLevels, entryMeaning_unsignZeros,
      targetLevels_unsignZeros, hsub, membersLevels_unsignMembers c members]

theorem itemsLevels_unsignItems (c : Connective) : (items : List Value) →
    subject.unsignZeros.itemsLevels c (unsignItems items) = subject.itemsLevels c items
  | [] => rfl
  | item :: items => by
    rw [unsignItems, itemsLevels, itemsLevels, meaning_unsignZeros, levels_unsignZeros .all item,
      itemsLevels_unsignItems c items]

end

end Subject

/-- No answer depends on the sign of a zero, in the query or in the document. -/
theorem satisfied_unsignZeros (options : Options) (query : Value) (document : Document) :
    satisfied options query.unsignZeros (unsignMembers document) =
      satisfied options query document := by
  let subject : Subject := ⟨document, options.separator⟩
  have hlevels := subject.levels_unsignZeros .all query
  have hmeaning := subject.meaning_unsignZeros .all query
  simp only [satisfied_result]
  rw [← hlevels, ← hmeaning]
  rfl

/-- Equal queries give the same answer, boolean or error, on equal documents. -/
theorem satisfied_eq_of_equals (options : Options) {query₁ query₂ : Value}
    {document₁ document₂ : Document} (hquery : query₁.equals query₂ = true)
    (hdocument : (Value.obj document₁).equals (.obj document₂) = true) :
    satisfied options query₁ document₁ = satisfied options query₂ document₂ := by
  have hq : query₁.unsignZeros = query₂.unsignZeros :=
    Value.unsignZeros_eq_of_equals _ _ hquery
  have hd : unsignMembers document₁ = unsignMembers document₂ :=
    Value.unsignMembers_eq_of_equalMembers _ _ hdocument
  calc
    satisfied options query₁ document₁
        = satisfied options query₁.unsignZeros (unsignMembers document₁) :=
      (satisfied_unsignZeros options query₁ document₁).symm
    _ = satisfied options query₂.unsignZeros (unsignMembers document₂) := by rw [hq, hd]
    _ = satisfied options query₂ document₂ := satisfied_unsignZeros options query₂ document₂

theorem satisfied_eq_of_equals_zeros :
    ((Value.obj [("a", .obj [("$in", .arr [.arr [.float (.finite true ⟨0, by decide⟩)]])])]).equals
        (.obj [("a", .obj [("$in", .arr [.arr [.float (.finite false ⟨0, by decide⟩)]])])]) = true ∧
      (Value.obj [("a", .arr [.float (.finite false ⟨0, by decide⟩)])]).equals
        (.obj [("a", .arr [.float (.finite true ⟨0, by decide⟩)])]) = true) ∧
    satisfied {} (.obj [("a", .obj [("$in", .arr [.arr [.float (.finite true ⟨0, by decide⟩)]])])])
        [("a", .arr [.float (.finite false ⟨0, by decide⟩)])] =
      satisfied {} (.obj [("a", .obj [("$in", .arr [.arr [.float (.finite false ⟨0, by decide⟩)]])])])
        [("a", .arr [.float (.finite true ⟨0, by decide⟩)])] :=
  ⟨⟨by decide, by decide⟩, satisfied_eq_of_equals {} (by decide) (by decide)⟩

end Query

end DocQuery
