import DocQuery.Proofs.Threshold
import DocQuery.Query.Account

/-! Every comparator that is announced gives its result, and the opposite of an implied test gives
that of the test before its own. An error leaves at most one announcement without a result, and its
kind says whether it does. -/

namespace DocQuery.Query

@[simp] theorem announced_append (events rest : List Event) :
    announced (events ++ rest) = announced events + announced rest := List.countP_append

@[simp] theorem applied_append (events rest : List Event) :
    applied (events ++ rest) = applied events + applied rest := List.countP_append

@[simp] theorem opposed_append (events rest : List Event) :
    opposed (events ++ rest) = opposed events + opposed rest := List.countP_append

theorem Paired.of_opposed_eq_zero {events : List Event} (h : opposed events = 0) :
    Paired events := by
  intro before after negated actual expected result hevents
  rw [hevents, opposed_append] at h
  have hpos : 1 ≤ opposed (.comparatorApplied .not negated actual expected result :: after) :=
    List.countP_pos_iff.mpr ⟨_, List.mem_cons_self, rfl⟩
  omega

theorem Paired.append {events rest : List Event} (h : Paired events) (hrest : Paired rest) :
    Paired (events ++ rest) := by
  intro before after negated actual expected result heq
  rcases List.append_eq_append_iff.mp heq with ⟨between, hbefore, hsecond⟩ | ⟨between, hfirst, hafter⟩
  · -- the opposite is in the second list, and so is what stands before it
    obtain ⟨earlier, test, holds, htest, hlast, hresult⟩ :=
      hrest between after negated actual expected result hsecond
    refine ⟨events ++ earlier, test, holds, htest, ?_, hresult⟩
    rw [hbefore, hlast, List.append_assoc]
  · rcases between with _ | ⟨event, between⟩
    · -- nothing can stand before the first event of the second list but in that list
      obtain ⟨earlier, _, _, _, hlast, _⟩ :=
        hrest [] after negated actual expected result hafter.symm
      exact absurd hlast.symm (List.append_ne_nil_of_right_ne_nil earlier (List.cons_ne_nil _ _))
    · obtain ⟨rfl, rfl⟩ := List.cons.inj hafter
      exact h before between negated actual expected result hfirst

/-- An opposite behind its own test. -/
theorem Paired.opposite {test : Test} (htest : test = .is ∨ test = .isIn) (negated holds : Bool)
    (actual expected : String) :
    Paired [.comparatorApplied (.test test) false actual expected holds,
      .comparatorApplied .not negated actual expected ((!holds) != negated)] := by
  intro before after negated' actual' expected' result heq
  rcases before with _ | ⟨first, _ | ⟨second, before⟩⟩
  · cases heq
  · cases heq
    exact ⟨[], test, holds, htest, rfl, rfl⟩
  · simp at heq

/-- A run of steps that gives their results to the comparators it announces and to those that it
owes them to from before, except for what its own result leaves unanswered. -/
structure Run.Settles (owed : Nat) (run : Run Bool) : Prop where
  steps : ∀ event ∈ run.events, event.severity = .trace
  balance : ∃ missing ∈ unanswered run.result,
    applied run.events + missing = owed + announced run.events + opposed run.events
  paired : Paired run.events

namespace Run

/-- Without a report everything that is owed stays unanswered. -/
theorem Settles.of_silent {owed : Nat} {result : Except MatchError Bool}
    (h : owed ∈ unanswered result) : (⟨[], result⟩ : Run Bool).Settles owed where
  steps := nofun
  balance := ⟨owed, h, Nat.zero_add owed⟩
  paired := .of_opposed_eq_zero rfl

theorem Settles.bind {owed : Nat} {run : Run Bool} {next : Bool → Run Bool}
    (hrun : run.Settles owed) (hnext : ∀ holds, (next holds).Settles 0) :
    (run >>= next).Settles owed := by
  rcases hr : run.result with e | holds
  · have hbalance := hrun.balance
    rw [hr] at hbalance
    rw [bind_of_error hr]
    exact ⟨hrun.steps, hbalance, hrun.paired⟩
  · have hrest := hnext holds
    obtain ⟨settled, hsettled, hfirst⟩ := hrun.balance
    obtain ⟨missing, hmissing, hsecond⟩ := hrest.balance
    -- a run that goes on leaves nothing unanswered
    rw [hr] at hsettled
    have hzero : settled = 0 := List.mem_singleton.mp hsettled
    rw [bind_of_ok hr]
    refine ⟨?_, ⟨missing, hmissing, ?_⟩, hrun.paired.append hrest.paired⟩
    · intro event hmem
      rcases List.mem_append.mp hmem with hmem | hmem
      · exact hrun.steps event hmem
      · exact hrest.steps event hmem
    · rw [applied_append, announced_append, opposed_append]
      omega

/-- A step that is no result itself leaves it to the rest to give the results. -/
theorem Settles.report {owed : Nat} {event : Event} {run : Run Bool}
    (hstep : event.severity = .trace) (happlied : applied [event] = 0)
    (hopposed : opposed [event] = 0) (hrun : run.Settles (owed + announced [event])) :
    (Run.report event >>= fun _ => run).Settles owed := by
  obtain ⟨missing, hmissing, hbalance⟩ := hrun.balance
  have hpaired := (Paired.of_opposed_eq_zero hopposed).append hrun.paired
  refine ⟨?_, ⟨missing, hmissing, ?_⟩, hpaired⟩
  · intro other hmem
    rcases List.mem_cons.mp hmem with rfl | hmem
    · exact hstep
    · exact hrun.steps other hmem
  · change applied ([event] ++ run.events) + missing =
      owed + announced ([event] ++ run.events) + opposed ([event] ++ run.events)
    rw [applied_append, announced_append, opposed_append]
    omega

end Run

theorem combining_settles (limit : Nat) :
    Combining limit limit (fun run _ => run.Settles 0) where
  limit_le := Nat.le_refl limit
  settle _ := .of_silent (List.mem_singleton_self 0)
  tooDeep _ := .of_silent List.mem_cons_self
  report := by
    intro event run₁ run₂ hevent _ hrun
    cases event with
    | negatedKey | shortCircuit => exact Run.Settles.report rfl rfl rfl hrun
    | wholeDocument | fieldResolved | comparatorApplied | aborted => cases hevent
  bind hrun hnext := hrun.bind hnext
  cut h := absurd h (Nat.lt_irrefl limit)

/-- An ordering fails before it can give a result. -/
theorem unanswered_of_order_error {actual expected : Value} {e : MatchError}
    (h : actual.order expected = .error e) : unanswered (.error e) = [1] := by
  cases hdomain : orderingDomain? expected with
  | some domain =>
    rw [((order_eq_error_iff hdomain).mp h).1]
    rfl
  | none =>
    cases expected with
    | int | float => cases hdomain
    | null | bool | str | arr | obj => cases h; rfl

theorem unanswered_of_holds_error {test : Test} {actual expected : Value} {e : MatchError}
    (h : test.holds actual expected = .error e) : unanswered (.error e) = [1] := by
  cases test with
  | is => cases h
  | isIn =>
    cases expected with
    | arr items => cases h
    | null | bool | int | float | str | obj => cases h; rfl
  | gt | gte | lt | lte =>
    rw [Test.holds, map_eq_error_iff] at h
    exact unanswered_of_order_error h

theorem Depth.enter_eq_error {depth : Depth} {e : MatchError} (h : depth.enter = .error e) :
    e = .tooDeep depth.limit := by
  unfold Depth.enter at h
  split at h
  · cases h
  · cases h; rfl

/-- The implied test is equality or membership, and it always has a result. -/
theorem Test.implied_holds (actual expected : Value) :
    (implied expected = is ∨ implied expected = isIn) ∧
      ∃ holds, (implied expected).holds actual expected = .ok holds := by
  cases expected with
  | arr items => exact ⟨Or.inr rfl, _, rfl⟩
  | null | bool | int | float | str | obj => exact ⟨Or.inl rfl, _, rfl⟩

namespace Comparator

/-- The report of a comparator and its result, turned round if it is negated. -/
theorem applyTest_of_ok {test : Test} {actual expected : Value} {holds : Bool}
    (h : test.holds actual expected = .ok holds) (negated : Bool) :
    applyTest test negated actual expected =
      ⟨[.comparatorApplied (.test test) negated actual.display expected.display
        (holds != negated)], .ok (holds != negated)⟩ := by
  unfold applyTest
  rw [h]
  rfl

theorem applyTest_of_error {test : Test} {actual expected : Value} {e : MatchError}
    (h : test.holds actual expected = .error e) (negated : Bool) :
    applyTest test negated actual expected = Run.fail e := by
  unfold applyTest
  rw [h]
  rfl

/-- All that a comparator can do: fail in silence, report its test, or report the implied test and
then the opposite. -/
theorem apply_cases (comparator : Comparator) (depth : Depth) (actual expected : Value) :
    (∃ e, 1 ∈ unanswered (.error e) ∧ comparator.apply depth actual expected = Run.fail e) ∨
    (∃ test negated holds, comparator.apply depth actual expected =
      ⟨[.comparatorApplied (.test test) negated actual.display expected.display holds],
        .ok holds⟩) ∨
    ∃ test negated holds, (test = .is ∨ test = .isIn) ∧
      comparator.apply depth actual expected =
        ⟨[.comparatorApplied (.test test) false actual.display expected.display holds,
          .comparatorApplied .not negated actual.display expected.display ((!holds) != negated)],
          .ok ((!holds) != negated)⟩ := by
  obtain ⟨relation, negated, name⟩ := comparator
  rcases relation with _ | ⟨test⟩ | _
  · exact Or.inl ⟨.unknownComparator name, List.mem_singleton_self 1, rfl⟩
  · cases h : test.holds actual expected with
    | error e =>
      have hone : 1 ∈ unanswered (.error e) := by
        rw [unanswered_of_holds_error h]
        exact List.mem_singleton_self 1
      exact Or.inl ⟨e, hone, applyTest_of_error h negated⟩
    | ok holds => exact Or.inr (Or.inl ⟨test, negated, _, applyTest_of_ok h negated⟩)
  · cases hdepth : depth.enter with
    | error e =>
      refine Or.inl ⟨e, ?_, ?_⟩
      · rw [Depth.enter_eq_error hdepth]
        exact List.mem_cons_of_mem 0 List.mem_cons_self
      · rw [apply, hdepth]
        rfl
    | ok below =>
      obtain ⟨himplied, holds, hholds⟩ := Test.implied_holds actual expected
      refine Or.inr (Or.inr ⟨.implied expected, negated, holds, himplied, ?_⟩)
      have htest := applyTest_of_ok hholds false
      rw [Bool.bne_false] at htest
      rw [apply, hdepth, htest]
      rfl

/-- A comparator gives the result that its announcement asks for. -/
theorem apply_settles (comparator : Comparator) (depth : Depth) (actual expected : Value) :
    (comparator.apply depth actual expected).Settles 1 := by
  rcases comparator.apply_cases depth actual expected with
    ⟨e, hone, hrun⟩ | ⟨test, negated, holds, hrun⟩ | ⟨test, negated, holds, himplied, hrun⟩
  · rw [hrun]
    exact .of_silent hone
  · rw [hrun]
    refine ⟨?_, ⟨0, List.mem_singleton_self 0, rfl⟩, .of_opposed_eq_zero rfl⟩
    intro event hmem
    rw [List.mem_singleton.mp hmem]
    rfl
  · rw [hrun]
    refine ⟨?_, ⟨0, List.mem_singleton_self 0, rfl⟩, .opposite himplied negated holds _ _⟩
    intro event hmem
    rcases List.mem_cons.mp hmem with rfl | hmem
    · rfl
    · rw [List.mem_singleton.mp hmem]
      rfl

theorem unanswered_of_ofExpectation_error {field : String} {expectation : Value} {e : MatchError}
    (h : ofExpectation field expectation = .error e) : unanswered (.error e) = [0] := by
  cases expectation with
  | null | bool => cases h; rfl
  | int | float | str | arr => cases h
  | obj members =>
    rcases members with _ | ⟨⟨name, operand⟩, _ | ⟨second, rest⟩⟩
    · cases h
    · cases h
    · cases h; rfl

end Comparator

namespace Subject

variable (subject : Subject)

/-- A leaf announces a comparator and applies it, or fails before that. -/
theorem leafRun_settles (depth : Depth) (leaf : Leaf) :
    (subject.leafRun depth leaf).Settles 0 := by
  cases leaf with
  | scalar query => exact .of_silent (List.mem_singleton_self 0)
  | whole name operand =>
    rw [leafRun, whole, Comparator.apply_document]
    exact Run.Settles.report rfl rfl rfl (Comparator.apply_settles _ _ _ _)
  | field path expectation =>
    rw [leafRun, field_eq]
    cases h : Comparator.ofExpectation path expectation with
    | error e =>
      have hzero : 0 ∈ unanswered (.error e) := by
        rw [Comparator.unanswered_of_ofExpectation_error h]
        exact List.mem_singleton_self 0
      exact .of_silent hzero
    | ok named =>
      exact Run.Settles.report rfl rfl rfl (Comparator.apply_settles _ _ _ _)

theorem evaluate_settles (c : Connective) (limit : Nat) (query : Value) :
    (subject.evaluate c (.top limit) query).Settles 0 := by
  have hleaves : Alike limit limit (fun run _ => run.Settles 0) subject subject (leaves query) := by
    intro leaf _ depth _ _ _
    exact subject.leafRun_settles depth leaf
  exact (combining_settles limit).evaluate c query hleaves _ _ (Depth.aligned_top limit limit)

end Subject

/-- In every trace the comparators announced are those that give a result, and an opposite gives one
more, except that an error may leave the last announcement unanswered. Only the failure itself is
reported as one, and last; an opposite follows its own test; and no report is off the levels that
there are. -/
theorem trace_balanced (options : Options) (query : Value) (document : Document) :
    (∃ missing ∈ unanswered (satisfied options query document),
      applied (trace options query document).events + missing =
        announced (trace options query document).events +
          opposed (trace options query document).events) ∧
    (match satisfied options query document with
      | .ok _ => ∀ event ∈ (trace options query document).events, event.severity = .trace
      | .error e => ∃ steps,
        (trace options query document).events = steps ++ [.aborted e.message query.display] ∧
          ∀ event ∈ steps, event.severity = .trace) ∧
    Paired (trace options query document).events ∧
    ∀ event ∈ (trace options query document).events, ∀ level, event.level? = some level →
      1 ≤ level ∧ level ≤ options.maxDepth := by
  let subject : Subject := ⟨document, options.separator⟩
  have hrun := subject.evaluate_settles .all options.maxDepth query
  have hevents := trace_events options query document
  have hlevels : ∀ event ∈ (trace options query document).events, event.Within options.maxDepth :=
    fun event hmem => trace_within hmem
  obtain ⟨missing, hmissing, hbalance⟩ := hrun.balance
  rw [← satisfied_eq_evaluate] at hmissing
  rw [Nat.zero_add] at hbalance
  cases hresult : satisfied options query document with
  | ok holds =>
    rw [hresult, List.append_nil] at hevents
    rw [hresult] at hmissing
    rw [← hevents] at hbalance
    refine ⟨⟨missing, hmissing, hbalance⟩, ?_, ?_, hlevels⟩
    · rw [hevents]
      exact hrun.steps
    · rw [hevents]
      exact hrun.paired
  | error e =>
    rw [hresult] at hevents hmissing
    refine ⟨⟨missing, hmissing, ?_⟩, ⟨_, hevents, hrun.steps⟩, ?_, hlevels⟩
    · -- the report of the failure is none of a comparator
      rw [hevents, applied_append, announced_append, opposed_append]
      exact hbalance
    · rw [hevents]
      exact hrun.paired.append (.of_opposed_eq_zero rfl)

/-- The opposite under a negated key: the test, its opposite, and then the whole is settled. -/
theorem trace_balanced_opposite :
    (trace {} (.obj [("!a", .obj [("$not", .int 1)])]) []).events =
      [.negatedKey 2, .fieldResolved "a" "$not" false 2,
        .comparatorApplied (.test .is) false (Value.display .null) (Value.display (.int 1)) false] ++
      .comparatorApplied .not false (Value.display .null) (Value.display (.int 1)) true ::
        [.shortCircuit .all "!a" 1] ∧
    (∃ (earlier : List Event) (test : Test) (holds : Bool), (test = .is ∨ test = .isIn) ∧
      [.negatedKey 2, .fieldResolved "a" "$not" false 2,
        .comparatorApplied (.test .is) false (Value.display .null) (Value.display (.int 1)) false] =
        earlier ++ [.comparatorApplied (.test test) false (Value.display .null)
          (Value.display (.int 1)) holds] ∧
      true = ((!holds) != false)) ∧
    Event.negatedKey 2 ∈ (trace {} (.obj [("!a", .obj [("$not", .int 1)])]) []).events ∧
    1 ≤ 2 ∧ 2 ≤ ({} : Options).maxDepth := by
  have hbalanced := trace_balanced {} (.obj [("!a", .obj [("$not", .int 1)])]) []
  have hmem : Event.negatedKey 2 ∈
      (trace {} (.obj [("!a", .obj [("$not", .int 1)])]) []).events := List.mem_cons_self
  exact ⟨rfl, hbalanced.2.2.1 _ _ _ _ _ _ rfl, hmem, hbalanced.2.2.2 _ hmem 2 rfl⟩

example :
    let events := (trace {} (.obj [("!a", .obj [("$not", .int 1)])]) []).events
    announced events = 1 ∧ applied events = 2 ∧ opposed events = 1 :=
  ⟨rfl, rfl, rfl⟩

end DocQuery.Query
