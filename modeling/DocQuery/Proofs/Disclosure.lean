import DocQuery.Proofs.Leaves
import DocQuery.Proofs.Lockstep

/-! The reports of an evaluation show all that the document does to its result: two documents on
which the same is reported get the same answer. -/

namespace DocQuery.Query

variable {α β : Type}

/-- What a trace may go on with after a run. A failure is reported, and nothing comes after that. -/
def Run.FollowedBy (run : Run α) (rest : List Event) : Prop :=
  ∀ e, run.result = .error e → ∃ error query, rest = [.aborted error query]

/-- Runs from which the same reports come, whatever follows them, are one run. -/
def Run.Transparent (run₁ run₂ : Run α) : Prop :=
  ∀ rest₁ rest₂, run₁.FollowedBy rest₁ → run₂.FollowedBy rest₂ →
    run₁.events ++ rest₁ = run₂.events ++ rest₂ → run₁ = run₂

namespace Run

theorem followedBy_of_ok {run : Run α} {a : α} (h : run.result = .ok a) (rest : List Event) :
    run.FollowedBy rest := by
  intro e he
  rw [h] at he
  cases he

theorem Transparent.refl (run : Run α) : run.Transparent run :=
  fun _ _ _ _ _ => rfl

/-- What follows two runs in sequence follows the first of them, behind the reports of the second. -/
theorem FollowedBy.of_bind {run : Run α} {next : α → Run β} {rest : List Event}
    (h : (run >>= next).FollowedBy rest) :
    ∃ after, run.FollowedBy after ∧ (run >>= next).events ++ rest = run.events ++ after := by
  cases hr : run.result with
  | ok a =>
    refine ⟨(next a).events ++ rest, followedBy_of_ok hr _, ?_⟩
    rw [bind_of_ok hr, List.append_assoc]
  | error e =>
    rw [bind_of_error hr] at h ⊢
    refine ⟨rest, ?_, rfl⟩
    intro e' _
    exact h e rfl

theorem Transparent.bind {run₁ run₂ : Run α} {next₁ next₂ : α → Run β}
    (hrun : run₁.Transparent run₂) (hnext : ∀ a, (next₁ a).Transparent (next₂ a)) :
    (run₁ >>= next₁).Transparent (run₂ >>= next₂) := by
  intro rest₁ rest₂ h₁ h₂ hevents
  obtain ⟨after₁, hafter₁, heq₁⟩ := h₁.of_bind
  obtain ⟨after₂, hafter₂, heq₂⟩ := h₂.of_bind
  have hfirst : run₁.events ++ after₁ = run₂.events ++ after₂ :=
    heq₁.symm.trans (hevents.trans heq₂)
  -- the first parts are one run, so their reports cancel and leave those of the second parts
  obtain rfl := hrun after₁ after₂ hafter₁ hafter₂ hfirst
  cases hr : run₁.result with
  | error e => rw [bind_of_error hr, bind_of_error hr]
  | ok a =>
    rw [bind_of_ok hr] at h₁ h₂
    have hsecond : (next₁ a).events ++ rest₁ = (next₂ a).events ++ rest₂ := by
      rw [bind_of_ok hr, bind_of_ok hr, List.append_assoc, List.append_assoc] at hevents
      exact List.append_cancel_left hevents
    rw [bind_of_ok hr, bind_of_ok hr, hnext a rest₁ rest₂ h₁ h₂ hsecond]

/-- Two first reports show whether they are the same. -/
theorem Transparent.of_cons {run₁ run₂ : Run α} {event₁ event₂ : Event} {events₁ events₂ : List Event}
    (h₁ : run₁.events = event₁ :: events₁) (h₂ : run₂.events = event₂ :: events₂)
    (h : event₁ = event₂ → run₁.Transparent run₂) : run₁.Transparent run₂ := by
  intro rest₁ rest₂ hrest₁ hrest₂ hevents
  have hhead : event₁ = event₂ := by
    rw [h₁, h₂, List.cons_append, List.cons_append] at hevents
    exact (List.cons.inj hevents).1
  exact h hhead rest₁ rest₂ hrest₁ hrest₂ hevents

/-- A run that fails at once shows that it does not report a step. -/
theorem Transparent.of_fail {run₁ run₂ : Run α} {e : MatchError} {event : Event}
    {events : List Event} (h₁ : run₁ = Run.fail e) (h₂ : run₂.events = event :: events)
    (hstep : event.severity = .trace) : run₁.Transparent run₂ := by
  intro rest₁ rest₂ hrest₁ _ hevents
  obtain ⟨error, query, rfl⟩ := hrest₁ e (congrArg Run.result h₁)
  rw [h₁, h₂, List.cons_append] at hevents
  obtain rfl := (List.cons.inj hevents).1
  cases hstep

theorem Transparent.symm {run₁ run₂ : Run α} (h : run₁.Transparent run₂) :
    run₂.Transparent run₁ :=
  fun rest₂ rest₁ hrest₂ hrest₁ hevents => (h rest₁ rest₂ hrest₁ hrest₂ hevents.symm).symm

end Run

theorem lockstep_transparent (limit : Nat) : Lockstep limit limit Run.Transparent where
  limit_le := Nat.le_refl limit
  settle _ := Run.Transparent.refl _
  fail _ := Run.Transparent.refl _
  report := fun _ hrun => (Run.Transparent.refl _).bind fun _ => hrun
  bind hrun hnext := hrun.bind hnext
  cut := fun h => absurd h (Nat.lt_irrefl limit)

/-- How an ordering fails is up to its expected operand. -/
theorem order_error_unique {actual₁ actual₂ expected : Value} {e₁ e₂ : MatchError}
    (h₁ : actual₁.order expected = .error e₁) (h₂ : actual₂.order expected = .error e₂) :
    e₁ = e₂ := by
  cases hdomain : orderingDomain? expected with
  | some domain =>
    have hcast₁ := ((order_eq_error_iff hdomain).mp h₁).1
    have hcast₂ := ((order_eq_error_iff hdomain).mp h₂).1
    exact hcast₁.trans hcast₂.symm
  | none =>
    cases expected with
    | int | float => cases hdomain
    | null | bool | str | arr | obj => exact Except.error.inj (h₁.symm.trans h₂)

theorem Test.error_unique {test : Test} {actual₁ actual₂ expected : Value} {e₁ e₂ : MatchError}
    (h₁ : test.holds actual₁ expected = .error e₁) (h₂ : test.holds actual₂ expected = .error e₂) :
    e₁ = e₂ := by
  cases test with
  | is => cases h₁
  | isIn =>
    cases expected with
    | arr items => cases h₁
    | null | bool | int | float | str | obj => exact Except.error.inj (h₁.symm.trans h₂)
  | gt | gte | lt | lte =>
    rw [Test.holds, map_eq_error_iff] at h₁ h₂
    exact order_error_unique h₁ h₂

namespace Comparator

theorem conclude_transparent (relation : Relation) (negated : Bool)
    (actual₁ actual₂ expected : Value) (holds₁ holds₂ : Bool) :
    (conclude relation negated actual₁ expected holds₁).Transparent
      (conclude relation negated actual₂ expected holds₂) := by
  apply Run.Transparent.of_cons rfl rfl
  intro hevent
  -- the result is part of the report
  have hresult : (holds₁ != negated) = (holds₂ != negated) := by
    injection hevent
  have hruns : conclude relation negated actual₁ expected holds₁ =
      conclude relation negated actual₂ expected holds₂ := by
    change Run.mk [_] (Except.ok (holds₁ != negated)) = Run.mk [_] (Except.ok (holds₂ != negated))
    rw [hevent, hresult]
  rw [hruns]
  exact Run.Transparent.refl _

theorem applyTest_transparent (test : Test) (negated : Bool) (actual₁ actual₂ expected : Value) :
    (applyTest test negated actual₁ expected).Transparent
      (applyTest test negated actual₂ expected) := by
  unfold applyTest
  cases h₁ : test.holds actual₁ expected with
  | ok holds₁ =>
    cases h₂ : test.holds actual₂ expected with
    | ok holds₂ => exact conclude_transparent _ _ _ _ _ _ _
    | error e₂ => exact (Run.Transparent.of_fail rfl rfl rfl).symm
  | error e₁ =>
    cases h₂ : test.holds actual₂ expected with
    | ok holds₂ => exact Run.Transparent.of_fail rfl rfl rfl
    | error e₂ =>
      rw [Test.error_unique h₁ h₂]
      exact Run.Transparent.refl _

theorem apply_transparent (comparator : Comparator) (depth : Depth)
    (actual₁ actual₂ expected : Value) :
    (comparator.apply depth actual₁ expected).Transparent
      (comparator.apply depth actual₂ expected) := by
  obtain ⟨relation, negated, name⟩ := comparator
  rcases relation with _ | ⟨test⟩ | _
  · exact Run.Transparent.refl _
  · exact applyTest_transparent test negated actual₁ actual₂ expected
  · apply (Run.Transparent.refl _).bind
    intro below
    apply (applyTest_transparent _ _ _ _ _).bind
    intro holds
    exact conclude_transparent _ _ _ _ _ _ _

end Comparator

/-- A field shows whether it was found, and what its comparator made of it. -/
theorem Subject.field_transparent (subject₁ subject₂ : Subject) (depth : Depth) (path : String)
    (expectation : Value) :
    (subject₁.field depth path expectation).Transparent
      (subject₂.field depth path expectation) := by
  rw [field_eq, field_eq]
  cases Comparator.ofExpectation path expectation with
  | error e => exact Run.Transparent.refl _
  | ok named =>
    apply Run.Transparent.of_cons rfl rfl
    intro hevent
    dsimp only
    rw [hevent]
    apply (Run.Transparent.refl _).bind
    intro _
    exact named.1.apply_transparent depth _ _ named.2

theorem alike_transparent (limit : Nat) (subject₁ subject₂ : Subject) (parts : List Leaf) :
    Alike limit limit Run.Transparent subject₁ subject₂ parts := by
  intro leaf _ depth₁ depth₂ h _
  rw [h.eq]
  cases leaf with
  | scalar query => exact Run.Transparent.refl _
  | whole name operand =>
    apply (Run.Transparent.refl _).bind
    intro _
    rw [Comparator.apply_document, Comparator.apply_document]
    exact Comparator.apply_transparent _ _ _ _ _
  | field path expectation => exact subject₁.field_transparent subject₂ depth₂ path expectation

/-- The report of a failure is what a trace goes on with after the evaluation that failed. -/
theorem evaluate_followedBy (options : Options) (query : Value) (document : Document) :
    (Subject.evaluate ⟨document, options.separator⟩ .all (.top options.maxDepth)
      query).FollowedBy
      (match satisfied options query document with
        | .ok _ => []
        | .error e => [.aborted e.message query.display]) := by
  intro e he
  rw [← satisfied_eq_evaluate] at he
  rw [he]
  exact ⟨_, _, rfl⟩

/-- Documents on which a query is evaluated with the same reports get the same answer. -/
theorem satisfied_eq_of_events_eq (options : Options) (query : Value) (document₁ document₂ : Document)
    (h : (trace options query document₁).events = (trace options query document₂).events) :
    satisfied options query document₁ = satisfied options query document₂ := by
  have hruns := (lockstep_transparent options.maxDepth).evaluate .all query
    (alike_transparent _ ⟨document₁, options.separator⟩ ⟨document₂, options.separator⟩ _) _ _
    (Depth.aligned_top _ _)
  rw [trace_events, trace_events] at h
  rw [satisfied_eq_evaluate, satisfied_eq_evaluate,
    hruns _ _ (evaluate_followedBy _ _ _) (evaluate_followedBy _ _ _) h]

/-- NaN is reported as null is, and it equals no string either. -/
theorem satisfied_eq_of_events_eq_shown_as_null :
    (trace {} (.obj [("a", .str "x")]) [("a", .float .nan)]).events =
      (trace {} (.obj [("a", .str "x")]) [("a", .null)]).events ∧
    satisfied {} (.obj [("a", .str "x")]) [("a", .float .nan)] =
      satisfied {} (.obj [("a", .str "x")]) [("a", .null)] :=
  ⟨rfl, satisfied_eq_of_events_eq _ _ _ _ rfl⟩

end DocQuery.Query
