import DocQuery.Proofs.Agreement
import DocQuery.Proofs.Negation
import DocQuery.Query.Account

/-! A comparator for the whole document does what it does for a field that holds the document as its
value: it comes to the same, and it reports the same test. -/

namespace DocQuery.Query

theorem comparisons_append (before after : List Event) :
    comparisons (before ++ after) = comparisons before ++ comparisons after :=
  List.filter_append before after

/-- Reports of anything else do not count. -/
theorem Run.AgreeOn.behind_reports {event₁ event₂ : Event} {run₁ run₂ : Run Bool}
    (h₁ : comparisons [event₁] = []) (h₂ : comparisons [event₂] = [])
    (hrun : Run.AgreeOn comparisons run₁ run₂) :
    Run.AgreeOn comparisons (Run.report event₁ >>= fun _ => run₁)
      (Run.report event₂ >>= fun _ => run₂) :=
  (Run.AgreeOn.report (h₁.trans h₂.symm)).bind comparisons_append fun _ => hrun

/-- A key with the sign of keywords that names neither a connective nor negation is the name of a
comparator for the whole document. -/
theorem MemberKey.ofKey_comparator {key : String} (hsign : key.toList.head? = some '$')
    (hkey : key ∉ ["$and", "$or", "$not"]) :
    MemberKey.ofKey key = ⟨.document (.ofKey key), false⟩ := by
  have hunmark : unmark key.toList = (false, key.toList) := by
    apply unmark_of_ne
    intro rest hrest
    rw [hrest] at hsign
    cases hsign
  have htarget : Target.ofBase key = .document (.ofKey key) := by
    unfold Target.ofBase
    split
    · rename_i c hc
      rw [Keyword.ofName?_eq_some_iff.mp hc] at hkey
      cases c with
      | all => exact absurd List.mem_cons_self hkey
      | any => exact absurd (List.mem_cons_of_mem _ List.mem_cons_self) hkey
    · rename_i hnot
      rw [Keyword.ofName?_eq_some_iff.mp hnot] at hkey
      exact absurd (List.mem_cons_of_mem _ (List.mem_cons_of_mem _ List.mem_cons_self)) hkey
    · exact if_pos hsign
  rw [ofKey_eq_unmark, hunmark, String.ofList_toList, htarget]

namespace Subject

/-- The comparator is the same, and so is the operand; only the announcements differ. -/
theorem whole_agrees_field {field : String} {separator : Char} (hfree : separator ∉ field.toList)
    (document : Document) (depth : Depth) (key : String) (operand : Value) :
    Run.AgreeOn comparisons
      (Subject.whole ⟨document, separator⟩ depth (.ofKey key) operand)
      (Subject.field ⟨[(field, .obj document)], separator⟩ depth field (keyed key operand)) := by
  have hfound : Document.resolve separator field [(field, .obj document)] =
      some (.obj document) := by
    rw [Document.resolve_of_not_mem hfree, List.lookup_cons_self]
  have hvalue : Subject.fieldValue ⟨[(field, .obj document)], separator⟩ field =
      .obj document := by
    unfold Subject.fieldValue
    rw [hfound]
    rfl
  rw [field_eq, hvalue, whole, Comparator.apply_document]
  exact Run.AgreeOn.behind_reports rfl rfl (Run.AgreeOn.refl _)

/-- Members whose targets agree agree, and neither key is negated. -/
theorem entry_agrees {subject₁ subject₂ : Subject} {key₁ key₂ : String}
    {target₁ target₂ : Target} (hkey₁ : MemberKey.ofKey key₁ = ⟨target₁, false⟩)
    (hkey₂ : MemberKey.ofKey key₂ = ⟨target₂, false⟩) {expectation₁ expectation₂ : Value}
    {sub₁ sub₂ : Connective → Depth → Run Bool}
    (haim : ∀ depth, Run.AgreeOn comparisons (subject₁.aim depth expectation₁ sub₁ target₁)
      (subject₂.aim depth expectation₂ sub₂ target₂)) (depth : Depth) :
    Run.AgreeOn comparisons (subject₁.entry depth key₁ expectation₁ sub₁)
      (subject₂.entry depth key₂ expectation₂ sub₂) := by
  unfold entry
  rw [hkey₁, hkey₂]
  -- both enter a level and report no mark, so only what the keys aim at is left
  apply (Run.AgreeOn.refl _).bind comparisons_append
  intro below
  apply (Run.AgreeOn.refl _).bind comparisons_append
  intro _
  exact (haim below).bind comparisons_append fun _ => Run.AgreeOn.refl _

/-- The key that settles a query is reported, but not as a comparison. -/
theorem evaluate_agrees {subject₁ subject₂ : Subject} {key₁ key₂ : String}
    {expectation₁ expectation₂ : Value}
    (hentry : ∀ depth, Run.AgreeOn comparisons
      (subject₁.entry depth key₁ expectation₁ fun c below =>
        subject₁.evaluate c below expectation₁)
      (subject₂.entry depth key₂ expectation₂ fun c below =>
        subject₂.evaluate c below expectation₂))
    (c : Connective) (depth : Depth) :
    Run.AgreeOn comparisons (subject₁.evaluate c depth (keyed key₁ expectation₁))
      (subject₂.evaluate c depth (keyed key₂ expectation₂)) := by
  unfold keyed
  rw [evaluate, evaluate]
  apply (Run.AgreeOn.refl _).bind comparisons_append
  intro below
  rw [evaluateMembers, evaluateMembers]
  apply (hentry below).bind comparisons_append
  intro holds
  split
  · exact Run.AgreeOn.behind_reports rfl rfl (Run.AgreeOn.refl _)
  · exact Run.AgreeOn.refl _

end Subject

/-- A comparator for the whole document comes to what it comes to for a field that holds the
document, errors included, and it gives the same results on the way. -/
theorem trace_whole_eq_field {key field : String} {options : Options}
    (hsign : key.toList.head? = some '$') (hkey : key ∉ ["$and", "$or", "$not"])
    (hfield : IsPath field) (hfree : options.separator ∉ field.toList) (operand : Value)
    (document : Document) :
    satisfied options (keyed key operand) document =
      satisfied options (keyed field (keyed key operand)) [(field, .obj document)] ∧
    comparisons (trace options (keyed key operand) document).events =
      comparisons
        (trace options (keyed field (keyed key operand)) [(field, .obj document)]).events := by
  have hwhole := MemberKey.ofKey_comparator hsign hkey
  have hruns := Subject.evaluate_agrees
    (Subject.entry_agrees hwhole hfield.ofKey fun depth =>
      Subject.whole_agrees_field hfree document depth key operand)
    .all (.top options.maxDepth)
  have hsatisfied : satisfied options (keyed key operand) document =
      satisfied options (keyed field (keyed key operand)) [(field, .obj document)] := by
    rw [satisfied_eq_evaluate, satisfied_eq_evaluate]
    exact hruns.result_eq
  refine ⟨hsatisfied, ?_⟩
  rw [trace_events, trace_events, hsatisfied, comparisons_append, comparisons_append,
    hruns.events_eq]
  -- a failure is reported with the query, but it is no comparison
  cases satisfied options (keyed field (keyed key operand)) [(field, .obj document)] with
  | ok holds => rfl
  | error e => rfl

/-- The document is one of the items, as the object that it would make. -/
theorem trace_whole_eq_field_in :
    ("$in".toList.head? = some '$' ∧ "$in" ∉ ["$and", "$or", "$not"] ∧ IsPath "w" ∧
      '.' ∉ "w".toList) ∧
    satisfied ⟨2, '.'⟩ (keyed "$in" (.arr [.null, .obj [("a", .bool true)]])) [("a", .bool true)] =
      .ok true ∧
    comparisons (trace ⟨2, '.'⟩ (keyed "$in" (.arr [.null, .obj [("a", .bool true)]]))
        [("a", .bool true)]).events =
      [.comparatorApplied (.test .isIn) false "\x7b\"a\":true\x7d" "[null,\x7b\"a\":true\x7d]"
        true] := by
  have hsign : "$in".toList.head? = some '$' := by decide
  have hkey : "$in" ∉ ["$and", "$or", "$not"] := by decide
  have hfield : IsPath "w" := by decide
  have hfree : (⟨2, '.'⟩ : Options).separator ∉ "w".toList := by decide
  obtain ⟨hresult, hevents⟩ := trace_whole_eq_field hsign hkey hfield hfree
    (.arr [.null, .obj [("a", .bool true)]]) [("a", .bool true)]
  exact ⟨⟨hsign, hkey, hfield, hfree⟩, hresult.trans rfl, hevents.trans rfl⟩

end DocQuery.Query
