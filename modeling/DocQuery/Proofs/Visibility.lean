import DocQuery.Proofs.Agreement
import DocQuery.Proofs.Budget
import DocQuery.Proofs.Lockstep

/-! A query sees of a document the values of the fields that it names, a missing one being null; it
does not see which of them are missing, although it reports that. -/

namespace DocQuery.Query

/-- The event without the report whether a field was found. -/
def Event.hideFound : Event → Event
  | .fieldResolved field comparator _ depth => .fieldResolved field comparator false depth
  | event => event

/-- The runs differ at most in the fields that they found. -/
structure Run.Indistinct (run₁ run₂ : Run Bool) : Prop where
  result_eq : run₁.result = run₂.result
  events_eq : run₁.events.map Event.hideFound = run₂.events.map Event.hideFound

theorem Run.Indistinct.report {event₁ event₂ : Event} {run₁ run₂ : Run Bool}
    (hevent : event₁.hideFound = event₂.hideFound) (hrun : Run.Indistinct run₁ run₂) :
    Run.Indistinct (Run.report event₁ >>= fun _ => run₁) (Run.report event₂ >>= fun _ => run₂) where
  result_eq := hrun.result_eq
  events_eq := by
    change event₁.hideFound :: run₁.events.map Event.hideFound =
      event₂.hideFound :: run₂.events.map Event.hideFound
    rw [hevent, hrun.events_eq]

theorem lockstep_indistinct (limit : Nat) : Lockstep limit limit Run.Indistinct where
  limit_le := Nat.le_refl limit
  settle _ := ⟨rfl, rfl⟩
  fail _ := ⟨rfl, rfl⟩
  report := fun _ hrun => Run.Indistinct.report rfl hrun
  bind := by
    intro run₁ run₂ next₁ next₂ hrun hnext
    have hboth : Run.AgreeOn (·.map Event.hideFound) (run₁ >>= next₁) (run₂ >>= next₂) :=
      Run.AgreeOn.bind (fun _ _ => List.map_append) ⟨hrun.result_eq, hrun.events_eq⟩
        fun holds => ⟨(hnext holds).result_eq, (hnext holds).events_eq⟩
    exact ⟨hboth.result_eq, hboth.events_eq⟩
  cut := fun h => absurd h (Nat.lt_irrefl limit)

/-- A field is tested alike wherever it has the same value, found or not. -/
theorem Subject.field_indistinct {subject₁ subject₂ : Subject} {path : String}
    (h : subject₁.fieldValue path = subject₂.fieldValue path) (depth : Depth)
    (expectation : Value) :
    Run.Indistinct (subject₁.field depth path expectation)
      (subject₂.field depth path expectation) := by
  rw [field_eq, field_eq, h]
  cases Comparator.ofExpectation path expectation with
  | error e => exact ⟨rfl, rfl⟩
  | ok named => exact Run.Indistinct.report rfl ⟨rfl, rfl⟩

theorem alike_of_fieldValue_eq {limit : Nat} {subject₁ subject₂ : Subject} {query : Value}
    (hwhole : asksWhole query = false)
    (hfields : ∀ path ∈ paths query, subject₁.fieldValue path = subject₂.fieldValue path) :
    Alike limit limit Run.Indistinct subject₁ subject₂ (leaves query) := by
  intro leaf hmem depth₁ depth₂ h _
  rw [h.eq]
  cases leaf with
  | scalar query => exact ⟨rfl, rfl⟩
  -- only here the runs could tell the documents apart
  | whole name operand =>
    have hasks := List.any_eq_false.mp hwhole _ hmem
    exact absurd rfl hasks
  | field path expectation =>
    have hpath : path ∈ paths query := List.mem_filterMap.mpr ⟨_, hmem, rfl⟩
    exact Subject.field_indistinct (hfields path hpath) depth₂ expectation

/-- Documents that agree on the fields of a query, a missing one counting as null, get the same
answer and, but for the reports of what was found, the same events. -/
theorem trace_eq_of_fields_eq (options : Options) (query : Value) (document₁ document₂ : Document)
    (hwhole : asksWhole query = false)
    (hfields : ∀ path ∈ paths query,
      (document₁.resolve options.separator path).getD .null =
        (document₂.resolve options.separator path).getD .null) :
    satisfied options query document₁ = satisfied options query document₂ ∧
      (trace options query document₁).events.map Event.hideFound =
        (trace options query document₂).events.map Event.hideFound := by
  have halike : Alike options.maxDepth options.maxDepth Run.Indistinct
      ⟨document₁, options.separator⟩ ⟨document₂, options.separator⟩ (leaves query) :=
    alike_of_fieldValue_eq hwhole hfields
  have hrun := (lockstep_indistinct options.maxDepth).evaluate .all query halike _ _
    (Depth.aligned_top _ _)
  have hsatisfied : satisfied options query document₁ = satisfied options query document₂ := by
    rw [satisfied_eq_evaluate, satisfied_eq_evaluate]
    exact hrun.result_eq
  refine ⟨hsatisfied, ?_⟩
  rw [trace_events, trace_events, hsatisfied, List.map_append, List.map_append, hrun.events_eq]

theorem trace_eq_of_missing_or_null :
    (asksWhole (.obj [("!a", .obj [("$in", .arr [.null])]), ("b", .str "x")]) = false ∧
      ∀ path ∈ paths (.obj [("!a", .obj [("$in", .arr [.null])]), ("b", .str "x")]),
        (Document.resolve '.' path []).getD .null =
          (Document.resolve '.' path [("a", .null), ("c", .int 1)]).getD .null) ∧
    satisfied {} (.obj [("!a", .obj [("$in", .arr [.null])]), ("b", .str "x")]) [] =
      satisfied {} (.obj [("!a", .obj [("$in", .arr [.null])]), ("b", .str "x")])
        [("a", .null), ("c", .int 1)] ∧
    (trace {} (.obj [("!a", .obj [("$in", .arr [.null])]), ("b", .str "x")])
        []).events.map Event.hideFound =
      (trace {} (.obj [("!a", .obj [("$in", .arr [.null])]), ("b", .str "x")])
        [("a", .null), ("c", .int 1)]).events.map Event.hideFound := by
  have hfields : ∀ path ∈ paths (.obj [("!a", .obj [("$in", .arr [.null])]), ("b", .str "x")]),
      (Document.resolve '.' path []).getD .null =
        (Document.resolve '.' path [("a", .null), ("c", .int 1)]).getD .null := by
    intro path hpath
    have hcases : path ∈ ["a", "b"] := hpath
    rcases List.mem_cons.mp hcases with rfl | hcases
    · rfl
    · rw [List.mem_singleton.mp hcases]
      rfl
  exact ⟨⟨rfl, hfields⟩, trace_eq_of_fields_eq {} _ _ _ rfl hfields⟩

end DocQuery.Query
