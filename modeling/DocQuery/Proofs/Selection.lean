import DocQuery.Proofs.Wrapping

/-! Filtering is selection as long as every document has an answer, and otherwise it is the first
failure. Filtering by the opposite of a query selects the other documents, at the price of the two
levels that the opposite takes. -/

namespace DocQuery.Query

/-- In a list either every element has an answer, or one is the first to fail. -/
theorem exists_first_error {α β ε : Type} (answer : α → Except ε β) (xs : List α) :
    (∀ x ∈ xs, ∃ b, answer x = .ok b) ∨
      ∃ before x after e, xs = before ++ x :: after ∧ (∀ y ∈ before, ∃ b, answer y = .ok b) ∧
        answer x = .error e := by
  induction xs with
  | nil => exact .inl (List.forall_mem_nil _)
  | cons x xs ih =>
    cases hx : answer x with
    -- nothing stands before the element, so whatever comes after it does not matter
    | error e => exact .inr ⟨[], x, xs, e, rfl, List.forall_mem_nil _, hx⟩
    | ok b =>
      rcases ih with hall | ⟨before, y, after, e, rfl, hbefore, hy⟩
      · exact .inl (List.forall_mem_cons.mpr ⟨⟨b, hx⟩, hall⟩)
      · have hmore : ∀ z ∈ x :: before, ∃ b, answer z = .ok b :=
          List.forall_mem_cons.mpr ⟨⟨b, hx⟩, hbefore⟩
        exact .inr ⟨x :: before, y, after, e, rfl, hmore, hy⟩

section

variable {α : Type} (view : α → Document) (options : Options) (query : Value)

theorem filterOn_cons_of_ok {x : α} {holds : Bool} (xs : List α)
    (h : satisfied options query (view x) = .ok holds) :
    filterOn view options query (x :: xs) =
      (filterOn view options query xs).map fun kept => if holds then x :: kept else kept := by
  rw [filterOn, h]
  cases filterOn view options query xs with
  | error e => rfl
  | ok kept => rfl

theorem filterOn_cons_of_error {x : α} {e : MatchError} (xs : List α)
    (h : satisfied options query (view x) = .error e) :
    filterOn view options query (x :: xs) = .error e := by
  rw [filterOn, h]
  rfl

/-- A list is filtered part by part, and the first part that fails is the failure of the whole. -/
theorem filterOn_append (xs ys : List α) :
    filterOn view options query (xs ++ ys) = (do
      let kept ← filterOn view options query xs
      let further ← filterOn view options query ys
      return kept ++ further) := by
  induction xs with
  | nil =>
    rw [List.nil_append, filterOn]
    cases filterOn view options query ys with
    | error e => rfl
    | ok further => rfl
  | cons x xs ih =>
    rw [List.cons_append]
    cases hx : satisfied options query (view x) with
    | error e =>
      rw [filterOn_cons_of_error view options query (xs ++ ys) hx,
        filterOn_cons_of_error view options query xs hx]
      rfl
    | ok holds =>
      rw [filterOn_cons_of_ok view options query (xs ++ ys) hx,
        filterOn_cons_of_ok view options query xs hx, ih]
      -- what is kept of the rest is put behind the element in either order of doing it
      cases filterOn view options query xs with
      | error e => rfl
      | ok kept =>
        cases filterOn view options query ys with
        | error e => rfl
        | ok further => cases holds <;> rfl

/-- Where every element has an answer, those with the answer yes are kept. -/
theorem filterOn_of_answers {xs : List α}
    (h : ∀ x ∈ xs, ∃ holds, satisfied options query (view x) = .ok holds) :
    filterOn view options query xs = .ok (xs.filter fun x => accepts options query (view x)) := by
  induction xs with
  | nil => rfl
  | cons x xs ih =>
    obtain ⟨⟨holds, hx⟩, hxs⟩ := List.forall_mem_cons.mp h
    have haccepts : accepts options query (view x) = holds := by rw [accepts, hx]
    rw [filterOn_cons_of_ok view options query xs hx, ih hxs, List.filter_cons, haccepts]
    rfl

theorem filterOn_of_failure {before after : List α} {x : α} {e : MatchError}
    (hbefore : ∀ y ∈ before, ∃ holds, satisfied options query (view y) = .ok holds)
    (hx : satisfied options query (view x) = .error e) :
    filterOn view options query (before ++ x :: after) = .error e := by
  rw [filterOn_append, filterOn_of_answers view options query hbefore,
    filterOn_cons_of_error view options query after hx]
  rfl

/-- A filter has a result just if every element has an answer. -/
theorem filterOn_eq_ok_iff (xs kept : List α) :
    filterOn view options query xs = .ok kept ↔
      (∀ x ∈ xs, ∃ holds, satisfied options query (view x) = .ok holds) ∧
        kept = xs.filter fun x => accepts options query (view x) := by
  constructor
  · intro hfilter
    rcases exists_first_error (fun x => satisfied options query (view x)) xs with
      hall | ⟨before, x, after, e, rfl, hbefore, hx⟩
    · rw [filterOn_of_answers view options query hall] at hfilter
      exact ⟨hall, (Except.ok.inj hfilter).symm⟩
    · rw [filterOn_of_failure view options query hbefore hx] at hfilter
      cases hfilter
  · rintro ⟨hall, rfl⟩
    exact filterOn_of_answers view options query hall

theorem filterOn_eq_error_iff (xs : List α) (e : MatchError) :
    filterOn view options query xs = .error e ↔
      ∃ before x after, xs = before ++ x :: after ∧
        (∀ y ∈ before, ∃ holds, satisfied options query (view y) = .ok holds) ∧
        satisfied options query (view x) = .error e := by
  constructor
  · intro hfilter
    rcases exists_first_error (fun x => satisfied options query (view x)) xs with
      hall | ⟨before, x, after, f, rfl, hbefore, hx⟩
    · rw [filterOn_of_answers view options query hall] at hfilter
      cases hfilter
    · rw [filterOn_of_failure view options query hbefore hx] at hfilter
      cases hfilter
      exact ⟨before, x, after, rfl, hbefore, hx⟩
  · rintro ⟨before, x, after, rfl, hbefore, hx⟩
    exact filterOn_of_failure view options query hbefore hx

end

/-- The error of a limit names the limit that was set. -/
theorem limit_of_satisfied_tooDeep {options : Options} {query : Value} {document : Document}
    {limit : Nat} (h : satisfied options query document = .error (.tooDeep limit)) :
    limit = options.maxDepth := by
  rw [satisfied_result] at h
  split at h
  · exact absurd h (Subject.meaning_ne_tooDeep _ .all query limit)
  · cases h
    rfl

section

variable {separator : Char} {limit : Nat} {query : Value} {document : Document}

theorem satisfied_not :
    satisfied ⟨limit + 2, separator⟩ (keyed "$not" query) document =
      turn true (relimit (limit + 2) (satisfied ⟨limit, separator⟩ query document)) := by
  have hkey : MemberKey.ofKey "$not" = ⟨.opposite, false⟩ := by decide
  exact (Wraps.of_opposite hkey).satisfied_eq limit separator query document

theorem satisfied_not_of_ok {holds : Bool}
    (h : satisfied ⟨limit, separator⟩ query document = .ok holds) :
    satisfied ⟨limit + 2, separator⟩ (keyed "$not" query) document = .ok (!holds) := by
  rw [satisfied_not, h]
  exact congrArg Except.ok (Bool.bne_true holds)

/-- The opposite of a query fails as the query does, with its own limit in the error of a limit. -/
theorem satisfied_not_of_error {e : MatchError}
    (h : satisfied ⟨limit, separator⟩ query document = .error e) :
    (e = .tooDeep limit ∧ satisfied ⟨limit + 2, separator⟩ (keyed "$not" query) document =
      .error (.tooDeep (limit + 2))) ∨
    satisfied ⟨limit + 2, separator⟩ (keyed "$not" query) document = .error e := by
  rw [satisfied_not, h]
  cases e with
  | tooDeep exceeded =>
    have hlimit : exceeded = limit := limit_of_satisfied_tooDeep h
    rw [hlimit]
    exact .inl ⟨rfl, rfl⟩
  | queryShape | multipleExpectations | notAMap | unknownComparator => exact .inr rfl
  | castFailed | notOrdered | notAnArray | malformed => exact .inr rfl

end

/-- A filter keeps, in order and as often as they occur, the elements that the query accepts if it
has an answer on all of them, and fails with the first failure otherwise, so it can be done part by
part. The opposite of the query keeps all the others, or both fail alike. -/
theorem filterOn_selects {α : Type} (view : α → Document) (separator : Char) (limit : Nat)
    (query : Value) (xs : List α) :
    (∀ kept, filterOn view ⟨limit, separator⟩ query xs = .ok kept ↔
      (∀ x ∈ xs, ∃ holds, satisfied ⟨limit, separator⟩ query (view x) = .ok holds) ∧
        kept = xs.filter fun x => accepts ⟨limit, separator⟩ query (view x)) ∧
    (∀ e, filterOn view ⟨limit, separator⟩ query xs = .error e ↔
      ∃ before x after, xs = before ++ x :: after ∧
        (∀ y ∈ before, ∃ holds, satisfied ⟨limit, separator⟩ query (view y) = .ok holds) ∧
        satisfied ⟨limit, separator⟩ query (view x) = .error e) ∧
    (∀ ys, filterOn view ⟨limit, separator⟩ query (xs ++ ys) = (do
      let kept ← filterOn view ⟨limit, separator⟩ query xs
      let further ← filterOn view ⟨limit, separator⟩ query ys
      return kept ++ further)) ∧
    ((∃ kept others, filterOn view ⟨limit, separator⟩ query xs = .ok kept ∧
        filterOn view ⟨limit + 2, separator⟩ (keyed "$not" query) xs = .ok others ∧
        xs.partition (fun x => accepts ⟨limit, separator⟩ query (view x)) = (kept, others)) ∨
      (∃ e, filterOn view ⟨limit, separator⟩ query xs = .error e ∧
        filterOn view ⟨limit + 2, separator⟩ (keyed "$not" query) xs = .error e) ∨
      (filterOn view ⟨limit, separator⟩ query xs = .error (.tooDeep limit) ∧
        filterOn view ⟨limit + 2, separator⟩ (keyed "$not" query) xs =
          .error (.tooDeep (limit + 2)))) := by
  let options : Options := ⟨limit, separator⟩
  let above : Options := ⟨limit + 2, separator⟩
  refine ⟨filterOn_eq_ok_iff view options query xs, filterOn_eq_error_iff view options query xs,
    filterOn_append view options query xs, ?_⟩
  have hanswers {ys : List α}
      (h : ∀ y ∈ ys, ∃ holds, satisfied options query (view y) = .ok holds) :
      ∀ y ∈ ys, ∃ holds, satisfied above (keyed "$not" query) (view y) = .ok holds := by
    intro y hy
    obtain ⟨holds, hholds⟩ := h y hy
    exact ⟨!holds, satisfied_not_of_ok hholds⟩
  rcases exists_first_error (fun x => satisfied options query (view x)) xs with
    hall | ⟨before, x, after, e, rfl, hbefore, hx⟩
  · left
    have hothers : (xs.filter fun x => accepts above (keyed "$not" query) (view x)) =
        xs.filter (not ∘ fun x => accepts options query (view x)) := by
      apply List.filter_congr
      intro x hx
      obtain ⟨holds, hholds⟩ := hall x hx
      have hnot := satisfied_not_of_ok hholds
      rw [Function.comp_apply, accepts, accepts, hholds, hnot]
    have hkept := filterOn_of_answers view options query hall
    have hrest := filterOn_of_answers view above (keyed "$not" query) (hanswers hall)
    rw [hothers] at hrest
    exact ⟨_, _, hkept, hrest, List.partition_eq_filter_filter⟩
  · right
    have hfails : filterOn view options query (before ++ x :: after) = .error e :=
      filterOn_of_failure view options query hbefore hx
    rcases satisfied_not_of_error hx with ⟨rfl, hnot⟩ | hnot
    · exact .inr ⟨hfails, filterOn_of_failure view above _ (hanswers hbefore) hnot⟩
    · exact .inl ⟨e, hfails, filterOn_of_failure view above _ (hanswers hbefore) hnot⟩

example : filter {} (.obj [("a", .arr [.null])]) [[("a", .bool true)], [], [("a", .null)], []] =
    .ok [[], [("a", .null)], []] := rfl

end DocQuery.Query
