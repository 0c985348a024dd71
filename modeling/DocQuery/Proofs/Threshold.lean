import DocQuery.Proofs.Budget
import DocQuery.Proofs.Leaves
import DocQuery.Proofs.Lockstep

/-! The limit to the depth is a sharp threshold: from some limit on, which the height of the query
bounds, evaluation does not notice it, and below that it fails. -/

namespace DocQuery.Query

/-- The second run goes on where the first is stopped by its limit, if it is. -/
def Run.Continues (limit : Nat) (run₁ run₂ : Run Bool) : Prop :=
  run₁ = run₂ ∨ (run₁.result = .error (.tooDeep limit) ∧ run₁.events <+: run₂.events)

theorem Run.Continues.events_prefix {limit : Nat} {run₁ run₂ : Run Bool}
    (h : Run.Continues limit run₁ run₂) : run₁.events <+: run₂.events := by
  rcases h with heq | ⟨-, hevents⟩
  · exact heq ▸ List.prefix_refl run₁.events
  · exact hevents

theorem lockstep_continues {limit₁ limit₂ : Nat} (h : limit₁ ≤ limit₂) :
    Lockstep limit₁ limit₂ (Run.Continues limit₁) where
  limit_le := h
  settle _ := Or.inl rfl
  fail _ := Or.inl rfl
  report := by
    intro event run₁ run₂ _ hrun
    rcases hrun with rfl | ⟨hresult, hevents⟩
    · exact Or.inl rfl
    · exact Or.inr ⟨hresult, List.prefix_append_right_inj [event] |>.mpr hevents⟩
  bind := by
    intro run₁ run₂ next₁ next₂ hrun hnext
    rcases hrun with rfl | ⟨hresult, hevents⟩
    · rcases hr : run₁.result with e | holds
      · rw [Run.bind_of_error hr, Run.bind_of_error hr]
        exact Or.inl rfl
      · rw [Run.bind_of_ok hr, Run.bind_of_ok hr]
        rcases hnext holds with heq | ⟨hcut, hprefix⟩
        · rw [heq]
          exact Or.inl rfl
        · exact Or.inr ⟨hcut, (List.prefix_append_right_inj _).mpr hprefix⟩
    · -- the first run is over, and what the second goes on with adds to its events
      rw [Run.bind_of_error hresult]
      refine Or.inr ⟨rfl, hevents.trans ?_⟩
      exact Run.events_prefix_bind run₂ next₂
  cut := by
    intro _ run
    exact Or.inr ⟨rfl, List.nil_prefix⟩

theorem lockstep_within (limit : Nat) :
    Lockstep limit limit (fun run _ => ∀ event ∈ run.events, event.Within limit) where
  limit_le := Nat.le_refl limit
  settle _ := by simp
  fail _ := nofun
  report := by
    intro event run₁ run₂ hevent hrun other hmem
    rcases List.mem_cons.mp hmem with rfl | hmem
    · exact hevent
    · exact hrun other hmem
  bind := by
    intro run₁ run₂ next₁ next₂ hrun hnext event hmem
    rcases hr : run₁.result with e | holds
    · rw [Run.bind_of_error hr] at hmem
      exact hrun event hmem
    · rw [Run.bind_of_ok hr] at hmem
      rcases List.mem_append.mp hmem with hmem | hmem
      · exact hrun event hmem
      · exact hnext holds event hmem
  cut := fun h => absurd h (Nat.lt_irrefl limit)

theorem trace_within {options : Options} {query : Value} {document : Document} {event : Event}
    (h : event ∈ (trace options query document).events) : event.Within options.maxDepth := by
  rw [trace_events] at h
  rcases List.mem_append.mp h with h | h
  · have hsteps := lockstep_within options.maxDepth
    exact hsteps.evaluate .all query (hsteps.alike_self _ _) _ _ (Depth.aligned_top _ _) event h
  · -- the report of a failure has no level
    split at h
    · cases h
    · rw [List.mem_singleton.mp h]
      exact Event.within_of_level?_eq_none rfl _

theorem Subject.evaluate_continues (subject : Subject) (c : Connective) (query : Value)
    {limit₁ limit₂ : Nat} (h : limit₁ ≤ limit₂) :
    Run.Continues limit₁ (subject.evaluate c (.top limit₁) query)
      (subject.evaluate c (.top limit₂) query) := by
  have hsteps := lockstep_continues h
  exact hsteps.evaluate c query (hsteps.alike_self subject _) _ _ (Depth.aligned_top limit₁ limit₂)

/-- A run that its limit does not stop is the run under every higher limit. -/
theorem trace_eq_of_limit_le {limit₁ limit₂ : Nat} {separator : Char} {query : Value}
    {document : Document} (h : limit₁ ≤ limit₂)
    (hresult : satisfied ⟨limit₁, separator⟩ query document ≠ .error (.tooDeep limit₁)) :
    trace ⟨limit₂, separator⟩ query document = trace ⟨limit₁, separator⟩ query document := by
  rcases Subject.evaluate_continues ⟨document, separator⟩ .all query h with heq | ⟨hcut, -⟩
  · simp only [trace, heq]
  · rw [satisfied_eq_evaluate] at hresult
    exact absurd hcut hresult

/-- The report of a failure is not a step, so the steps of a trace are those of the evaluation. -/
theorem trace_steps (options : Options) (query : Value) (document : Document) :
    (trace options query document).events.filter (·.severity = .trace) =
      (Subject.evaluate ⟨document, options.separator⟩ .all (.top options.maxDepth)
        query).events.filter (·.severity = .trace) := by
  rw [trace_events, List.filter_append]
  cases satisfied options query document with
  | ok holds => exact List.append_nil _
  | error e => exact List.append_nil _

/-- Under a higher limit the same steps are reported, and more may follow. Nothing follows, and
nothing changes, where the lower limit is not what ended the run. -/
theorem trace_extends_with_limit (query : Value) (document : Document) (separator : Char)
    {limit₁ limit₂ : Nat} (h : limit₁ ≤ limit₂) :
    (trace ⟨limit₁, separator⟩ query document).events.filter (·.severity = .trace) <+:
        (trace ⟨limit₂, separator⟩ query document).events.filter (·.severity = .trace) ∧
      ((∀ limit, satisfied ⟨limit₁, separator⟩ query document ≠ .error (.tooDeep limit)) →
        (trace ⟨limit₁, separator⟩ query document).events =
          (trace ⟨limit₂, separator⟩ query document).events) := by
  constructor
  · rw [trace_steps, trace_steps]
    have hrun := Subject.evaluate_continues ⟨document, separator⟩ .all query h
    exact hrun.events_prefix.filter _
  · intro hresult
    rw [trace_eq_of_limit_le h (hresult limit₁)]

/-- With one level more the implied test is reached, and with more than that nothing changes. -/
theorem trace_extends_with_limit_into_opposite :
    (2 ≤ 3 ∧ (trace ⟨2, '.'⟩ (.obj [("!a", .obj [("$not", .int 1)])]) []).events.filter
          (·.severity = .trace) <+:
        (trace ⟨3, '.'⟩ (.obj [("!a", .obj [("$not", .int 1)])]) []).events.filter
          (·.severity = .trace)) ∧
    3 ≤ 9 ∧
    (∀ limit, satisfied ⟨3, '.'⟩ (.obj [("!a", .obj [("$not", .int 1)])]) [] ≠
      .error (.tooDeep limit)) ∧
    (trace ⟨3, '.'⟩ (.obj [("!a", .obj [("$not", .int 1)])]) []).events =
      (trace ⟨9, '.'⟩ (.obj [("!a", .obj [("$not", .int 1)])]) []).events := by
  have hresult : ∀ limit, satisfied ⟨3, '.'⟩ (.obj [("!a", .obj [("$not", .int 1)])]) [] ≠
      .error (.tooDeep limit) := nofun
  exact ⟨⟨by decide, (trace_extends_with_limit _ _ _ (by decide)).1⟩, by decide, hresult,
    (trace_extends_with_limit _ _ _ (by decide)).2 hresult⟩

theorem operandFault_ne_tooDeep (name : Marked) (operand : Value) (limit : Nat) :
    operandFault name operand ≠ some (.tooDeep limit) := by
  intro h
  unfold operandFault at h
  split at h <;> simp at h

theorem Leaf.fault_ne_tooDeep (leaf : Leaf) (limit : Nat) : leaf.fault ≠ some (.tooDeep limit) := by
  intro h
  cases leaf with
  | scalar query => cases h
  | whole name operand =>
    rcases Option.or_eq_some_iff.mp h with h | ⟨-, h⟩
    · exact operandFault_ne_tooDeep name operand limit h
    · simp at h
  | field path expectation =>
    cases expectation with
    | null | bool | int | float | str | arr => cases h
    | obj members =>
      rcases members with _ | ⟨⟨name, operand⟩, _ | ⟨second, rest⟩⟩
      · cases h
      · exact operandFault_ne_tooDeep _ _ limit h
      · cases h

/-- The meaning of a query knows no limit. -/
theorem Subject.meaning_ne_tooDeep (subject : Subject) (c : Connective) (query : Value)
    (limit : Nat) : subject.reading.meaning c query ≠ .error (.tooDeep limit) := by
  intro h
  obtain ⟨leaf, -, he⟩ := subject.exists_leaf_of_meaning_error c query h
  -- neither a fault nor a failed cast is the error of a limit
  cases hfault : leaf.fault with
  | some e =>
    have hsame := (subject.leafMeaning_of_fault hfault).symm.trans he
    cases hsame
    exact leaf.fault_ne_tooDeep limit hfault
  | none =>
    obtain ⟨_, domain, -, -, hcast⟩ := subject.cast_of_leafMeaning_error hfault he
    cases hcast

/-- For every query there is a least limit that it needs. From there on all runs are one run, whose
levels stay at or below it; a lower limit is exceeded. -/
theorem exists_depth_threshold (query : Value) (document : Document) (separator : Char) :
    ∃ (needed : Nat) (answer : Except MatchError Bool),
      (1 ≤ needed ∧ needed ≤ 2 * query.height + 1) ∧
      (∀ limit, answer ≠ .error (.tooDeep limit)) ∧
      (∀ limit, needed ≤ limit → satisfied ⟨limit, separator⟩ query document = answer) ∧
      (∀ limit, limit < needed →
        satisfied ⟨limit, separator⟩ query document = .error (.tooDeep limit)) ∧
      (∀ limit, needed ≤ limit →
        trace ⟨limit, separator⟩ query document = trace ⟨needed, separator⟩ query document) ∧
      ∀ limit, ∀ event ∈ (trace ⟨limit, separator⟩ query document).events,
        ∀ level, event.level? = some level → level ≤ needed := by
  let subject : Subject := ⟨document, separator⟩
  have hresult (limit : Nat) : satisfied ⟨limit, separator⟩ query document =
      if subject.levels .all query ≤ limit then subject.reading.meaning .all query
      else .error (.tooDeep limit) := satisfied_result ⟨limit, separator⟩ query document
  have hanswer := subject.meaning_ne_tooDeep .all query
  have henough (limit : Nat) (h : subject.levels .all query ≤ limit) :
      satisfied ⟨limit, separator⟩ query document = subject.reading.meaning .all query := by
    rw [hresult, if_pos h]
  have hsame (limit : Nat) (h : subject.levels .all query ≤ limit) :
      trace ⟨limit, separator⟩ query document =
        trace ⟨subject.levels .all query, separator⟩ query document := by
    apply trace_eq_of_limit_le h
    rw [henough _ (Nat.le_refl _)]
    exact hanswer _
  refine ⟨subject.levels .all query, subject.reading.meaning .all query,
    ⟨subject.one_le_levels .all query, subject.levels_le .all query⟩, hanswer, henough, ?_, hsame, ?_⟩
  · intro limit h
    rw [hresult, if_neg (Nat.not_le.mpr h)]
  · intro limit event hevent level hlevel
    -- a lower limit bounds the levels itself; any other run is that under the least limit
    rcases Nat.lt_or_ge limit (subject.levels .all query) with hlt | hge
    · have hle := (trace_within hevent level hlevel).2
      exact Nat.le_trans hle (Nat.le_of_lt hlt)
    · rw [hsame limit hge] at hevent
      exact (trace_within hevent level hlevel).2

example : satisfied ⟨2, '.'⟩ (.obj [("a", .obj [("$not", .int 1)])]) [] = .error (.tooDeep 2) := rfl

example : satisfied ⟨3, '.'⟩ (.obj [("a", .obj [("$not", .int 1)])]) [] = .ok true := rfl

end DocQuery.Query
