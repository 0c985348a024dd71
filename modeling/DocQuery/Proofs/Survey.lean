import DocQuery.Query.Matching
import DocQuery.Query.Rearranged
import DocQuery.Query.Survey

/-! Stopping at the first part that settles the whole gives the answer that a visit of all parts
gives, whenever that visit meets no error. So the order of sub-queries does not matter then. -/

namespace DocQuery.Query

theorem Connective.join_decisive (c : Connective) (b : Bool) : c.join c.decisive b = c.decisive := by
  cases c <;> rfl

theorem Connective.join_of_ne_decisive {c : Connective} {a : Bool} (h : a ≠ c.decisive) (b : Bool) :
    c.join a b = b := by
  cases c <;> cases a <;> first | rfl | exact absurd rfl h

theorem Connective.join_left_comm (c : Connective) (a b d : Bool) :
    c.join a (c.join b d) = c.join b (c.join a d) := by
  cases c
  · exact Bool.and_left_comm a b d
  · exact Bool.or_left_comm a b d

/-- The survey has found the answer, or its errors include the one that the answer is. -/
def Survey.Covers (survey : Survey) (answer : Except MatchError Bool) : Prop :=
  match survey with
  | .ok holds => answer = .ok holds
  | .error es => ∀ e, answer = .error e → e ∈ es

namespace Survey

theorem covers_error {e : MatchError} : Covers (.error [e]) (.error e) := by
  intro e' he
  rw [Except.error.inj he]
  exact List.mem_singleton_self e'

theorem covers_ofExcept (answer : Except MatchError Bool) : (ofExcept answer).Covers answer := by
  cases answer with
  | ok holds => rfl
  | error e => exact covers_error

theorem Covers.map {survey : Survey} {answer : Except MatchError Bool} (h : survey.Covers answer)
    (f : Bool → Bool) : Covers (Except.map f survey) (answer.map f) := by
  cases survey with
  | ok holds =>
    have hanswer : answer = .ok holds := h
    rw [hanswer]
    rfl
  | error es =>
    intro e he
    cases answer with
    | ok holds => cases he
    | error e' =>
      cases he
      exact h e rfl

theorem Covers.both_error {c : Connective} {es : List MatchError} {rest : Survey}
    {answer further : Except MatchError Bool} (hfirst : Covers (.error es) answer)
    (hrest : rest.Covers further) :
    (Survey.both c (.error es) rest).Covers
      (answer >>= fun holds => if holds = c.decisive then .ok holds else further) := by
  -- an error of the first part is among those found, and so is one of the rest
  have herror (e : MatchError)
      (he : (answer >>= fun holds => if holds = c.decisive then .ok holds else further) =
        .error e) : e ∈ es ∨ further = .error e := by
    cases answer with
    | error e' =>
      cases he
      exact Or.inl (hfirst e rfl)
    | ok holds =>
      change (if holds = c.decisive then Except.ok holds else further) = .error e at he
      split at he
      · cases he
      · exact Or.inr he
  cases rest with
  | ok b =>
    have hfurther : further = .ok b := hrest
    intro e he
    rcases herror e he with hmem | hmem
    · exact hmem
    · rw [hfurther] at hmem
      cases hmem
  | error fs =>
    intro e he
    rcases herror e he with hmem | hmem
    · exact List.mem_append_left fs hmem
    · exact List.mem_append_right es (hrest e hmem)

theorem Covers.both_ok {c : Connective} {rest : Survey} {further : Except MatchError Bool}
    (hrest : rest.Covers further) (holds : Bool) :
    (Survey.both c (.ok holds) rest).Covers
      (if holds = c.decisive then .ok holds else further) := by
  by_cases hdecisive : holds = c.decisive
  · rw [if_pos hdecisive, hdecisive]
    cases rest with
    | ok b => exact congrArg Except.ok (c.join_decisive b).symm
    | error fs => exact nofun
  · rw [if_neg hdecisive]
    cases rest with
    | ok b =>
      have hfurther : further = .ok b := hrest
      exact hfurther.trans (congrArg Except.ok (Connective.join_of_ne_decisive hdecisive b).symm)
    | error fs => exact hrest

/-- The rest is visited anyway; its answer counts only if the first part leaves the whole open. -/
theorem Covers.both {c : Connective} {first rest : Survey}
    {answer further : Except MatchError Bool} (hfirst : first.Covers answer)
    (hrest : rest.Covers further) :
    (Survey.both c first rest).Covers
      (answer >>= fun holds => if holds = c.decisive then .ok holds else further) := by
  cases first with
  | error es => exact Covers.both_error hfirst hrest
  | ok holds =>
    have hanswer : answer = .ok holds := hfirst
    rw [hanswer]
    exact hrest.both_ok holds

theorem both_eq_ok_iff {c : Connective} {first rest : Survey} {holds : Bool} :
    Survey.both c first rest = .ok holds ↔
      ∃ a b, first = .ok a ∧ rest = .ok b ∧ c.join a b = holds := by
  cases first with
  | error es => cases rest <;> simp [Survey.both]
  | ok a => cases rest <;> simp [Survey.both]

/-- The other survey finds the same if the first one finds an answer. -/
def KeptBy (survey other : Survey) : Prop :=
  ∀ holds, survey = .ok holds → other = .ok holds

theorem KeptBy.refl (survey : Survey) : survey.KeptBy survey := fun _ h => h

theorem KeptBy.trans {survey middle other : Survey} (h : survey.KeptBy middle)
    (h' : middle.KeptBy other) : survey.KeptBy other :=
  fun holds hok => h' holds (h holds hok)

theorem KeptBy.both {first₁ first₂ rest₁ rest₂ : Survey} (hfirst : first₁.KeptBy first₂)
    (hrest : rest₁.KeptBy rest₂) (c : Connective) :
    (Survey.both c first₁ rest₁).KeptBy (Survey.both c first₂ rest₂) := by
  intro holds h
  obtain ⟨a, b, ha, hb, hjoin⟩ := both_eq_ok_iff.mp h
  exact both_eq_ok_iff.mpr ⟨a, b, hfirst a ha, hrest b hb, hjoin⟩

theorem KeptBy.map {survey other : Survey} (h : survey.KeptBy other) (f : Bool → Bool) :
    KeptBy (Except.map f survey) (Except.map f other) := by
  intro holds hmap
  cases survey with
  | error es => cases hmap
  | ok own =>
    rw [h own rfl]
    exact hmap

theorem both_left_comm (c : Connective) (first second rest : Survey) :
    (Survey.both c first (Survey.both c second rest)).KeptBy
      (Survey.both c second (Survey.both c first rest)) := by
  intro holds h
  obtain ⟨a, further, ha, hfurther, hjoin⟩ := both_eq_ok_iff.mp h
  obtain ⟨b, d, hb, hd, rfl⟩ := both_eq_ok_iff.mp hfurther
  have hinner : Survey.both c first rest = .ok (c.join a d) :=
    both_eq_ok_iff.mpr ⟨a, d, ha, hd, rfl⟩
  have hcomm : c.join b (c.join a d) = holds := (c.join_left_comm b a d).trans hjoin
  exact both_eq_ok_iff.mpr ⟨b, c.join a d, hb, hinner, hcomm⟩

end Survey

namespace Subject

variable (subject : Subject)

theorem surveyEntry_covers (depth : Depth) (key : String) (expectation : Value)
    {visit : Connective → Depth → Survey} {sub : Connective → Depth → Run Bool}
    (hsub : ∀ c below, (visit c below).Covers (sub c below).result) :
    (subject.surveyEntry depth key expectation visit).Covers
      (subject.entry depth key expectation sub).result := by
  unfold surveyEntry entry
  rw [Run.bind_result, Run.ofExcept_result]
  obtain ⟨target, negated⟩ := MemberKey.ofKey key
  cases depth.enter with
  | error e => exact Survey.covers_error
  | ok below =>
    change Survey.Covers _ (Run.reportIf _ _ >>= fun _ => _).result
    rw [Run.reportIf_bind_result, Run.bind_result]
    refine Survey.Covers.map ?_ (· != negated)
    cases target with
    | parts c => exact hsub c below
    | opposite =>
      rw [aim, Run.map_result]
      exact (hsub .all below).map (!·)
    | document name => exact Survey.covers_ofExcept _
    | field path => exact Survey.covers_ofExcept _

mutual

/-- What an evaluation comes to, a survey of the same query has met. -/
theorem survey_covers (c : Connective) (depth : Depth) : (query : Value) →
    (subject.survey c depth query).Covers (subject.evaluate c depth query).result
  | .obj members => by
    rw [survey, evaluate, Run.bind_result, Run.ofExcept_result]
    cases depth.enter with
    | error e => exact Survey.covers_error
    | ok below => exact surveyMembers_covers c below members
  | .arr items => by
    rw [survey, evaluate, Run.bind_result, Run.ofExcept_result]
    cases depth.enter with
    | error e => exact Survey.covers_error
    | ok below => exact surveyItems_covers c below items
  | .null | .bool _ | .int _ | .float _ | .str _ => by
    rw [survey, evaluate, Run.bind_result, Run.ofExcept_result]
    · cases depth.enter <;> exact Survey.covers_error
    all_goals nofun

theorem surveyMembers_covers (c : Connective) (depth : Depth) :
    (members : List (String × Value)) →
    (subject.surveyMembers c depth members).Covers (subject.evaluateMembers c depth members).result
  | [] => rfl
  | (key, expectation) :: members => by
    have hentry := subject.surveyEntry_covers depth key expectation
      (fun c below => survey_covers c below expectation)
    have hwhole := hentry.both (c := c) (surveyMembers_covers c depth members)
    rw [surveyMembers, evaluateMembers, Run.bind_stop_result c _ _ fun _ => rfl]
    exact hwhole

theorem surveyItems_covers (c : Connective) (depth : Depth) : (items : List Value) →
    (subject.surveyItems c depth items).Covers (subject.evaluateItems c depth items).result
  | [] => rfl
  | item :: items => by
    have hwhole := (survey_covers .all depth item).both (c := c) (surveyItems_covers c depth items)
    rw [surveyItems, evaluateItems, Run.bind_stop_result c _ _ fun _ => rfl]
    exact hwhole

end

theorem surveyEntry_kept {key : String} {expectation other : Value}
    {visit₁ visit₂ : Connective → Depth → Survey}
    (hleaf : (MemberKey.ofKey key).target.leaf? expectation = none)
    (hsub : ∀ c below, (visit₁ c below).KeptBy (visit₂ c below)) (depth : Depth) :
    (subject.surveyEntry depth key expectation visit₁).KeptBy
      (subject.surveyEntry depth key other visit₂) := by
  unfold surveyEntry
  cases depth.enter with
  | error e => exact nofun
  | ok below =>
    generalize MemberKey.ofKey key = read at hleaf ⊢
    obtain ⟨target, negated⟩ := read
    cases target with
    | parts c => exact (hsub c below).map (· != negated)
    | opposite => exact ((hsub .all below).map (!·)).map (· != negated)
    | document name => cases hleaf
    | field path => cases hleaf

theorem surveyItems_perm (c : Connective) (depth : Depth) {items others : List Value}
    (h : items.Perm others) :
    (subject.surveyItems c depth items).KeptBy (subject.surveyItems c depth others) := by
  induction h with
  | nil => exact Survey.KeptBy.refl _
  | cons item _ ih =>
    rw [surveyItems, surveyItems]
    exact (Survey.KeptBy.refl _).both ih c
  | swap item other items =>
    simp only [surveyItems]
    exact Survey.both_left_comm c _ _ _
  | trans _ _ ih₁ ih₂ => exact ih₁.trans ih₂

/-- One item more or less deep in a list is kept with what stands before and after it. -/
theorem surveyItems_item (c : Connective) (depth : Depth) {item other : Value}
    (h : (subject.survey .all depth item).KeptBy (subject.survey .all depth other))
    (before after : List Value) :
    (subject.surveyItems c depth (before ++ item :: after)).KeptBy
      (subject.surveyItems c depth (before ++ other :: after)) := by
  induction before with
  | nil =>
    rw [List.nil_append, List.nil_append, surveyItems, surveyItems]
    exact h.both (Survey.KeptBy.refl _) c
  | cons first before ih =>
    rw [List.cons_append, List.cons_append, surveyItems, surveyItems]
    exact (Survey.KeptBy.refl _).both ih c

theorem surveyMembers_member (c : Connective) (depth : Depth) {key : String}
    {expectation other : Value}
    (hleaf : (MemberKey.ofKey key).target.leaf? expectation = none)
    (h : ∀ d below, (subject.survey d below expectation).KeptBy (subject.survey d below other))
    (before after : List (String × Value)) :
    (subject.surveyMembers c depth (before ++ (key, expectation) :: after)).KeptBy
      (subject.surveyMembers c depth (before ++ (key, other) :: after)) := by
  induction before with
  | nil =>
    rw [List.nil_append, List.nil_append, surveyMembers, surveyMembers]
    exact (subject.surveyEntry_kept hleaf h depth).both (Survey.KeptBy.refl _) c
  | cons first before ih =>
    rw [List.cons_append, List.cons_append, surveyMembers, surveyMembers]
    exact (Survey.KeptBy.refl _).both ih c

/-- A survey without errors finds the same in a rearranged query. -/
theorem survey_kept {query other : Value} (h : Rearranged query other) (c : Connective)
    (depth : Depth) :
    (subject.survey c depth query).KeptBy (subject.survey c depth other) := by
  induction h generalizing c depth with
  | refl query => exact Survey.KeptBy.refl _
  | trans _ _ ih₁ ih₂ => exact (ih₁ c depth).trans (ih₂ c depth)
  | items hperm =>
    rw [survey, survey]
    cases depth.enter with
    | error e => exact nofun
    | ok below => exact subject.surveyItems_perm c below hperm
  | item before after _ ih =>
    rw [survey, survey]
    cases depth.enter with
    | error e => exact nofun
    | ok below => exact subject.surveyItems_item c below (ih .all below) before after
  | member before after hleaf _ ih =>
    rw [survey, survey]
    cases depth.enter with
    | error e => exact nofun
    | ok below => exact subject.surveyMembers_member c below hleaf ih before after

end Subject

/-- The answer of a survey without errors is the answer, and an error that is the answer is one of
those that a survey finds. Without errors the order of sub-queries in arrays does not matter. -/
theorem satisfied_agrees_with_survey (options : Options) (query : Value) (document : Document) :
    (∀ holds, (⟨document, options.separator⟩ : Subject).survey .all (.top options.maxDepth) query =
        .ok holds → satisfied options query document = .ok holds) ∧
      (∀ e, satisfied options query document = .error e →
        ∃ es, (⟨document, options.separator⟩ : Subject).survey .all (.top options.maxDepth) query =
          .error es ∧ e ∈ es) ∧
      ∀ other, Rearranged query other →
        (∃ holds, (⟨document, options.separator⟩ : Subject).survey .all (.top options.maxDepth)
          query = .ok holds) →
        satisfied options other document = satisfied options query document := by
  let subject : Subject := ⟨document, options.separator⟩
  have hcovers (query : Value) : (subject.survey .all (.top options.maxDepth) query).Covers
      (satisfied options query document) := by
    rw [satisfied_eq_evaluate]
    exact subject.survey_covers .all _ query
  have hanswer (query : Value) (holds : Bool)
      (h : subject.survey .all (.top options.maxDepth) query = .ok holds) :
      satisfied options query document = .ok holds := by
    have hquery := hcovers query
    rw [h] at hquery
    exact hquery
  refine ⟨hanswer query, ?_, ?_⟩
  · intro e he
    have hquery := hcovers query
    cases hsurvey : subject.survey .all (.top options.maxDepth) query with
    | ok holds =>
      rw [hanswer query holds hsurvey] at he
      cases he
    | error es =>
      rw [hsurvey] at hquery
      exact ⟨es, rfl, hquery e he⟩
  · rintro other hrearranged ⟨holds, hsurvey⟩
    have hother := subject.survey_kept hrearranged .all _ holds hsurvey
    rw [hanswer query holds hsurvey, hanswer other holds hother]

theorem satisfied_agrees_with_survey_reordered :
    Rearranged
        (.obj [("!$or", .arr [.obj [("a", .int 1)], .obj [("$not", .arr [.obj [("b", .int 2)]])]])])
        (.obj [("!$or", .arr [.obj [("$not", .arr [.obj [("b", .int 2)]])], .obj [("a", .int 1)]])]) ∧
      Subject.survey ⟨[("b", .int 2)], '.'⟩ .all (.top 128)
        (.obj [("!$or", .arr [.obj [("a", .int 1)], .obj [("$not", .arr [.obj [("b", .int 2)]])]])]) =
          .ok true ∧
      satisfied {}
        (.obj [("!$or", .arr [.obj [("$not", .arr [.obj [("b", .int 2)]])], .obj [("a", .int 1)]])])
        [("b", .int 2)] = .ok true := by
  have hrearranged : Rearranged
      (.obj [("!$or", .arr [.obj [("a", .int 1)], .obj [("$not", .arr [.obj [("b", .int 2)]])]])])
      (.obj [("!$or", .arr [.obj [("$not", .arr [.obj [("b", .int 2)]])], .obj [("a", .int 1)]])]) :=
    .member [] [] rfl (.items (List.Perm.swap _ _ _))
  obtain ⟨hanswer, -, horder⟩ := satisfied_agrees_with_survey {}
    (.obj [("!$or", .arr [.obj [("a", .int 1)], .obj [("$not", .arr [.obj [("b", .int 2)]])]])])
    [("b", .int 2)]
  exact ⟨hrearranged, rfl, (horder _ hrearranged ⟨true, rfl⟩).trans (hanswer true rfl)⟩

end DocQuery.Query
