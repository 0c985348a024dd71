import DocQuery.Proofs.Parts
import DocQuery.Proofs.Places

/-! The first part of a query that does not leave the whole open decides it. Neither the answer nor
the steps of an evaluation depend on what comes after that part, wherever the query stands. -/

namespace DocQuery.Query

namespace Connective

variable (c : Connective)

theorem vacuous_eq : c.vacuous = !c.decisive := by
  cases c <;> rfl

theorem combine_open (rest : Except MatchError Bool) :
    c.combine (.ok (!c.decisive)) rest = rest := by
  cases c <;> rfl

theorem combine_of_ne_open {first : Except MatchError Bool} (h : first ≠ .ok (!c.decisive))
    (rest : Except MatchError Bool) : c.combine first rest = first := by
  cases first with
  | error e => cases c <;> rfl
  | ok holds =>
    have hdecisive : holds = c.decisive := by
      apply Decidable.byContradiction
      intro hne
      exact h (congrArg Except.ok (Bool.eq_not_of_ne hne))
    rw [hdecisive]
    cases c <;> rfl

/-- An evaluation stops at the part that combines with all further ones in vain. -/
theorem bind_eq_combine (first rest : Except MatchError Bool) :
    (first >>= fun holds => if holds = c.decisive then .ok holds else rest) =
      c.combine first rest := by
  cases c <;> rcases first with e | _ | _ <;> rfl

variable {answer : Except MatchError Bool} {first : Run Bool} {rest : List (Run Bool)}

theorem not_decided_nil : ¬ c.Decided [] answer := by
  rintro ⟨before, part, after, hparts, -, -⟩
  exact absurd hparts.symm (List.append_ne_nil_of_right_ne_nil before (List.cons_ne_nil part after))

/-- A part that leaves the whole open is passed over. -/
theorem decided_cons_of_open (hopen : first.result = .ok (!c.decisive))
    (hanswer : answer ≠ .ok (!c.decisive)) :
    c.Decided (first :: rest) answer ↔ c.Decided rest answer := by
  constructor
  · rintro ⟨before, part, after, hparts, hbefore, hpart⟩
    cases before with
    | nil =>
      obtain ⟨rfl, -⟩ := List.cons.inj hparts
      exact absurd (hpart.symm.trans hopen) hanswer
    | cons earlier before =>
      obtain ⟨-, hrest⟩ := List.cons.inj hparts
      obtain ⟨-, hbefore⟩ := List.forall_mem_cons.mp hbefore
      exact ⟨before, part, after, hrest, hbefore, hpart⟩
  · rintro ⟨before, part, after, rfl, hbefore, hpart⟩
    exact ⟨first :: before, part, after, rfl, List.forall_mem_cons.mpr ⟨hopen, hbefore⟩, hpart⟩

/-- No part comes after one that does not. -/
theorem decided_cons_of_ne_open (hfirst : first.result ≠ .ok (!c.decisive)) :
    c.Decided (first :: rest) answer ↔ first.result = answer := by
  constructor
  · rintro ⟨before, part, after, hparts, hbefore, hpart⟩
    cases before with
    | nil =>
      obtain ⟨rfl, -⟩ := List.cons.inj hparts
      exact hpart
    | cons earlier before =>
      obtain ⟨rfl, -⟩ := List.cons.inj hparts
      exact absurd (hbefore first List.mem_cons_self) hfirst
  · intro hresult
    exact ⟨[], first, rest, rfl, nofun, hresult⟩

theorem settle_eq_open_iff {parts : List (Run Bool)} :
    c.settle (parts.map Run.result) = .ok (!c.decisive) ↔
      ∀ part ∈ parts, part.result = .ok (!c.decisive) := by
  induction parts with
  | nil => simp [vacuous_eq]
  | cons first rest ih =>
    rw [List.map_cons, settle_cons, List.forall_mem_cons]
    by_cases hopen : first.result = .ok (!c.decisive)
    · rw [hopen, combine_open, ih]
      exact (and_iff_right rfl).symm
    · rw [c.combine_of_ne_open hopen]
      exact ⟨fun h => absurd h hopen, fun h => absurd h.1 hopen⟩

theorem settle_eq_iff_decided {parts : List (Run Bool)} (hanswer : answer ≠ .ok (!c.decisive)) :
    c.settle (parts.map Run.result) = answer ↔ c.Decided parts answer := by
  induction parts with
  | nil =>
    rw [List.map_nil, settle_nil, vacuous_eq]
    exact ⟨fun h => absurd h.symm hanswer, fun h => absurd h c.not_decided_nil⟩
  | cons first rest ih =>
    rw [List.map_cons, settle_cons]
    by_cases hopen : first.result = .ok (!c.decisive)
    · rw [hopen, combine_open, ih, c.decided_cons_of_open hopen hanswer]
    · rw [c.combine_of_ne_open hopen, c.decided_cons_of_ne_open hopen]

end Connective

/-- What follows a part makes no difference unless the part leaves the whole open. -/
theorem Run.bind_congr_of_decided (c : Connective) {first rest₁ rest₂ : Run Bool}
    (stop : Bool → Run Bool) (h : first.result = .ok (!c.decisive) → rest₁ = rest₂) :
    (first >>= fun holds => if holds = c.decisive then stop holds else rest₁) =
      first >>= fun holds => if holds = c.decisive then stop holds else rest₂ := by
  cases hresult : first.result with
  | error e => rw [Run.bind_of_error hresult, Run.bind_of_error hresult]
  | ok holds =>
    rw [Run.bind_of_ok hresult, Run.bind_of_ok hresult]
    by_cases hdecisive : holds = c.decisive
    · rw [if_pos hdecisive, if_pos hdecisive]
    · have hopen : holds = !c.decisive := Bool.eq_not_of_ne hdecisive
      rw [hopen] at hresult
      rw [h hresult]

namespace Subject

variable (subject : Subject) (c : Connective)

theorem evaluateMembers_result_eq_settle (depth : Depth) (members : List (String × Value)) :
    (subject.evaluateMembers c depth members).result =
      c.settle ((members.map (subject.memberRun depth)).map Run.result) := by
  induction members with
  | nil => exact congrArg Except.ok c.vacuous_eq.symm
  | cons member members ih =>
    rw [evaluateMembers, Run.bind_stop_result c _ _ fun _ => rfl, c.bind_eq_combine, ih]
    rfl

theorem evaluateItems_result_eq_settle (depth : Depth) (items : List Value) :
    (subject.evaluateItems c depth items).result =
      c.settle ((items.map (subject.evaluate .all depth)).map Run.result) := by
  induction items with
  | nil => exact congrArg Except.ok c.vacuous_eq.symm
  | cons item items ih =>
    rw [evaluateItems, Run.bind_stop_result c _ _ fun _ => rfl, c.bind_eq_combine, ih]
    rfl

/-- Below the level that a query enters, its parts settle its answer. -/
theorem evaluate_result_eq_settle {depth below : Depth} (hbelow : depth.enter = .ok below)
    {query : Value} (hquery : query.kind = .object ∨ query.kind = .array) :
    (subject.evaluate c depth query).result =
      c.settle ((subject.partRuns below query).map Run.result) := by
  cases query with
  | obj members =>
    rw [evaluate, hbelow]
    exact subject.evaluateMembers_result_eq_settle c below members
  | arr items =>
    rw [evaluate, hbelow]
    exact subject.evaluateItems_result_eq_settle c below items
  | null | bool | int | float | str => simp [Value.kind] at hquery

theorem evaluateMembers_append_congr {depth : Depth} {members : List (String × Value)}
    {member : String × Value} (hmem : member ∈ members)
    (hdecided : (subject.memberRun depth member).result ≠ .ok (!c.decisive))
    (rest others : List (String × Value)) :
    subject.evaluateMembers c depth (members ++ rest) =
      subject.evaluateMembers c depth (members ++ others) := by
  induction members with
  | nil => cases hmem
  | cons first members ih =>
    rw [List.cons_append, List.cons_append, evaluateMembers, evaluateMembers]
    apply Run.bind_congr_of_decided
    intro hopen
    rcases List.mem_cons.mp hmem with rfl | hmem
    · exact absurd hopen hdecided
    · exact ih hmem

theorem evaluateItems_append_congr {depth : Depth} {items : List Value} {item : Value}
    (hmem : item ∈ items) (hdecided : (subject.evaluate .all depth item).result ≠ .ok (!c.decisive))
    (rest others : List Value) :
    subject.evaluateItems c depth (items ++ rest) =
      subject.evaluateItems c depth (items ++ others) := by
  induction items with
  | nil => cases hmem
  | cons first items ih =>
    rw [List.cons_append, List.cons_append, evaluateItems, evaluateItems]
    apply Run.bind_congr_of_decided
    intro hopen
    rcases List.mem_cons.mp hmem with rfl | hmem
    · exact absurd hopen hdecided
    · exact ih hmem

end Subject

/-- Both queries are evaluated by the same run, reports included. -/
theorem SameUntilDecided.evaluate_eq {subject : Subject} {c : Connective} {depth below : Depth}
    (hbelow : depth.enter = .ok below) {query other : Value}
    (h : SameUntilDecided subject c below query other) :
    subject.evaluate c depth query = subject.evaluate c depth other := by
  cases h with
  | items rest others hmem hdecided =>
    rw [Subject.evaluate, Subject.evaluate, hbelow]
    exact subject.evaluateItems_append_congr c hmem hdecided rest others
  | members hmembers hothers hsame hlookup hdecided =>
    rename_i members others key expectation
    obtain ⟨rest, hrest⟩ := Members.exists_eq_upTo_append hmembers key
    obtain ⟨more, hmore⟩ := Members.exists_eq_upTo_append hothers key
    have hupTo := Members.upTo_eq_of_lookup_eq hmembers hothers hsame
    have hmem : (key, expectation) ∈ Members.upTo key members := by
      obtain ⟨before, after, rfl, -⟩ := List.lookup_eq_some_iff.mp hlookup
      exact Members.mem_upTo.mpr
        ⟨List.mem_append_right before List.mem_cons_self, String.le_refl key⟩
    rw [Subject.evaluate, Subject.evaluate, hbelow, hrest, hmore, ← hupTo]
    exact subject.evaluateMembers_append_congr c hmem hdecided rest more

/-- Under a connective, the whole has the answer that leaves it open if all parts have; otherwise it
has the answer, or the error, of the first part that has not. What comes after that part makes no
difference to the run, nor to the answer and the steps of any query that the whole is a part of. -/
theorem evaluate_decided_by_first_part (subject : Subject) (c : Connective) {depth below : Depth}
    (hbelow : depth.enter = .ok below) :
    (∀ query : Value, query.kind = .object ∨ query.kind = .array →
      ((subject.evaluate c depth query).result = .ok (!c.decisive) ↔
        ∀ part ∈ subject.partRuns below query, part.result = .ok (!c.decisive)) ∧
      ((subject.evaluate c depth query).result = .ok c.decisive ↔
        c.Decided (subject.partRuns below query) (.ok c.decisive)) ∧
      ∀ e, (subject.evaluate c depth query).result = .error e ↔
        c.Decided (subject.partRuns below query) (.error e)) ∧
    ∀ query other : Value, SameUntilDecided subject c below query other →
      subject.evaluate c depth query = subject.evaluate c depth other ∧
      ∀ (place : Place) (limit : Nat), place.reach .all (.top limit) = some (c, depth) →
        satisfied ⟨limit, subject.separator⟩ (place.fill query) subject.document =
            satisfied ⟨limit, subject.separator⟩ (place.fill other) subject.document ∧
          (trace ⟨limit, subject.separator⟩ (place.fill query) subject.document).events.filter
              (·.severity = .trace) =
            (trace ⟨limit, subject.separator⟩ (place.fill other) subject.document).events.filter
              (·.severity = .trace) := by
  constructor
  · intro query hquery
    have hsettle := subject.evaluate_result_eq_settle c hbelow hquery
    have hdecisive : (.ok c.decisive : Except MatchError Bool) ≠ .ok (!c.decisive) := by
      cases c <;> nofun
    refine ⟨?_, ?_, ?_⟩
    · rw [hsettle]
      exact c.settle_eq_open_iff
    · rw [hsettle]
      exact c.settle_eq_iff_decided hdecisive
    · intro e
      rw [hsettle]
      exact c.settle_eq_iff_decided nofun
  · intro query other hsame
    have hrun := hsame.evaluate_eq hbelow
    exact ⟨hrun, fun place limit hreach => trace_fill_congr hrun hreach⟩

/-- The second member would fail in one object and holds in the other. -/
theorem evaluate_decided_by_first_part_of_two :
    (⟨2, 9, by decide⟩ : Depth).enter = .ok ⟨3, 9, by decide⟩ ∧
    (Connective.Decided .any
        (Subject.partRuns ⟨[("a", .int 1)], '.'⟩ ⟨3, 9, by decide⟩
          (.obj [("a", .int 1), ("b", .null)])) (.ok true) ∧
      (Subject.evaluate ⟨[("a", .int 1)], '.'⟩ .any ⟨2, 9, by decide⟩
        (.obj [("a", .int 1), ("b", .null)])).result = .ok true) ∧
    SameUntilDecided ⟨[("a", .int 1)], '.'⟩ .any ⟨3, 9, by decide⟩
      (.obj [("a", .int 1), ("b", .null)]) (.obj [("a", .int 1), ("c", keyed "$is" .null)]) ∧
    Place.reach (.member [] "$or" .whole []) .all (.top 9) = some (.any, ⟨2, 9, by decide⟩) ∧
    satisfied ⟨9, '.'⟩ (keyed "$or" (.obj [("a", .int 1), ("b", .null)])) [("a", .int 1)] =
      satisfied ⟨9, '.'⟩ (keyed "$or" (.obj [("a", .int 1), ("c", keyed "$is" .null)]))
        [("a", .int 1)] := by
  have hbelow : (⟨2, 9, by decide⟩ : Depth).enter = .ok ⟨3, 9, by decide⟩ := rfl
  have hdecided : Connective.Decided .any
      (Subject.partRuns ⟨[("a", .int 1)], '.'⟩ ⟨3, 9, by decide⟩
        (.obj [("a", .int 1), ("b", .null)])) (.ok true) := ⟨[], _, _, rfl, nofun, rfl⟩
  have hlookup (k : String) (hk : k ≤ "a") :
      [("a", Value.int 1), ("b", .null)].lookup k =
        [("a", Value.int 1), ("c", keyed "$is" .null)].lookup k := by
    have hb : k ≠ "b" := fun h => absurd (h ▸ hk) (by decide)
    have hc : k ≠ "c" := fun h => absurd (h ▸ hk) (by decide)
    simp only [Members.lookup_cons, hb, hc, if_false]
  have hsame : SameUntilDecided ⟨[("a", .int 1)], '.'⟩ .any ⟨3, 9, by decide⟩
      (.obj [("a", .int 1), ("b", .null)]) (.obj [("a", .int 1), ("c", keyed "$is" .null)]) :=
    .members (by decide) (by decide) hlookup rfl nofun
  have hreach : Place.reach (.member [] "$or" .whole []) .all (.top 9) =
      some (.any, ⟨2, 9, by decide⟩) := rfl
  obtain ⟨hanswers, hruns⟩ :=
    evaluate_decided_by_first_part ⟨[("a", .int 1)], '.'⟩ .any hbelow
  exact ⟨hbelow, ⟨hdecided, (hanswers _ (.inl rfl)).2.1.mpr hdecided⟩, hsame, hreach,
    ((hruns _ _ hsame).2 _ 9 hreach).1⟩

-- without parts the answer is the one that leaves the whole open
example : satisfied {} (keyed "$and" (.arr [])) [] = .ok true := rfl

example : satisfied {} (keyed "$or" (.obj [])) [] = .ok false := rfl

end DocQuery.Query
