import DocQuery.Query.Matching
import DocQuery.Query.Reach

/-! Two evaluations of one query go through it in lockstep as long as its leaves behave alike. What
"alike" means is a relation between runs; it has to hold for the steps that do not look at the
document and to be kept when runs follow one another. Where keys and connectives alone keep it, the
leaves have to be looked at one by one. -/

namespace DocQuery.Query

def Event.Within (limit : Nat) (event : Event) : Prop :=
  ∀ level, event.level? = some level → 1 ≤ level ∧ level ≤ limit

theorem Event.within_of_level?_eq_none {event : Event} (h : event.level? = none) (limit : Nat) :
    event.Within limit := by
  intro level hl
  rw [h] at hl
  cases hl

/-- The relation is one that steps keep which both runs make. -/
structure Lockstep (limit₁ limit₂ : Nat) (R : Run Bool → Run Bool → Prop) : Prop where
  limit_le : limit₁ ≤ limit₂
  settle : ∀ holds, R (pure holds) (pure holds)
  fail : ∀ e, R (Run.fail e) (Run.fail e)
  report : ∀ {event run₁ run₂}, event.Within limit₁ → R run₁ run₂ →
    R (Run.report event >>= fun _ => run₁) (Run.report event >>= fun _ => run₂)
  bind : ∀ {run₁ run₂ : Run Bool} {next₁ next₂ : Bool → Run Bool}, R run₁ run₂ →
    (∀ holds, R (next₁ holds) (next₂ holds)) → R (run₁ >>= next₁) (run₂ >>= next₂)
  -- only the second run may go on
  cut : limit₁ < limit₂ → ∀ run, R (Run.fail (.tooDeep limit₁)) run

/-- A report of a key or of a connective, as opposed to those of a leaf. -/
def Event.Combines : Event → Prop
  | negatedKey _ | shortCircuit _ _ _ => True
  | wholeDocument _ _ | fieldResolved _ _ _ _ | comparatorApplied _ _ _ _ _ | aborted _ _ => False

/-- The relation is one that keys and connectives keep, whatever the leaves do. -/
structure Combining (limit₁ limit₂ : Nat) (R : Run Bool → Run Bool → Prop) : Prop where
  limit_le : limit₁ ≤ limit₂
  settle : ∀ holds, R (pure holds) (pure holds)
  tooDeep : limit₁ = limit₂ → R (Run.fail (.tooDeep limit₁)) (Run.fail (.tooDeep limit₂))
  report : ∀ {event run₁ run₂}, event.Combines → event.Within limit₁ → R run₁ run₂ →
    R (Run.report event >>= fun _ => run₁) (Run.report event >>= fun _ => run₂)
  bind : ∀ {run₁ run₂ : Run Bool} {next₁ next₂ : Bool → Run Bool}, R run₁ run₂ →
    (∀ holds, R (next₁ holds) (next₂ holds)) → R (run₁ >>= next₁) (run₂ >>= next₂)
  cut : limit₁ < limit₂ → ∀ run, R (Run.fail (.tooDeep limit₁)) run

theorem Lockstep.combining {limit₁ limit₂ : Nat} {R : Run Bool → Run Bool → Prop}
    (steps : Lockstep limit₁ limit₂ R) : Combining limit₁ limit₂ R where
  limit_le := steps.limit_le
  settle := steps.settle
  tooDeep := by
    rintro rfl
    exact steps.fail _
  report := fun _ hevent hrun => steps.report hevent hrun
  bind := steps.bind
  cut := steps.cut

/-- Two runs are on the same level, each under its own limit. -/
structure Depth.Aligned (limit₁ limit₂ : Nat) (depth₁ depth₂ : Depth) : Prop where
  level_eq : depth₁.level = depth₂.level
  limit_left : depth₁.limit = limit₁
  limit_right : depth₂.limit = limit₂

theorem Depth.aligned_top (limit₁ limit₂ : Nat) :
    Depth.Aligned limit₁ limit₂ (.top limit₁) (.top limit₂) := ⟨rfl, rfl, rfl⟩

theorem Depth.Aligned.eq {limit : Nat} {depth₁ depth₂ : Depth}
    (h : Depth.Aligned limit limit depth₁ depth₂) : depth₁ = depth₂ :=
  Depth.ext h.level_eq (h.limit_left.trans h.limit_right.symm)

/-- An event on the level of an evaluation is within its limit. -/
theorem Depth.Aligned.within {limit₁ limit₂ : Nat} {depth₁ depth₂ : Depth} {event : Event}
    (h : Depth.Aligned limit₁ limit₂ depth₁ depth₂) (hpos : 1 ≤ depth₁.level)
    (hlevel : event.level? = some depth₁.level) : event.Within limit₁ := by
  intro level hl
  have heq : depth₁.level = level := Option.some.inj (hlevel.symm.trans hl)
  have hle : depth₁.level ≤ limit₁ := h.limit_left ▸ depth₁.level_le_limit
  rw [← heq]
  exact ⟨hpos, hle⟩

namespace Subject

def leafRun (subject : Subject) (depth : Depth) : Leaf → Run Bool
  | .scalar query => Run.fail (.queryShape query.kind)
  | .whole name operand => subject.whole depth name operand
  | .field path expectation => subject.field depth path expectation

end Subject

/-- The leaves in a list are evaluated alike on two subjects, on every level. -/
def Alike (limit₁ limit₂ : Nat) (R : Run Bool → Run Bool → Prop) (subject₁ subject₂ : Subject)
    (parts : List Leaf) : Prop :=
  ∀ leaf ∈ parts, ∀ depth₁ depth₂, Depth.Aligned limit₁ limit₂ depth₁ depth₂ → 1 ≤ depth₁.level →
    R (subject₁.leafRun depth₁ leaf) (subject₂.leafRun depth₂ leaf)

theorem alike_append {limit₁ limit₂ : Nat} {R : Run Bool → Run Bool → Prop}
    {subject₁ subject₂ : Subject} {parts rest : List Leaf}
    (h : Alike limit₁ limit₂ R subject₁ subject₂ (parts ++ rest)) :
    Alike limit₁ limit₂ R subject₁ subject₂ parts ∧
      Alike limit₁ limit₂ R subject₁ subject₂ rest :=
  ⟨fun leaf hmem => h leaf (List.mem_append_left _ hmem),
    fun leaf hmem => h leaf (List.mem_append_right _ hmem)⟩

namespace Combining

variable {limit₁ limit₂ : Nat} {R : Run Bool → Run Bool → Prop}
  (steps : Combining limit₁ limit₂ R)
variable {depth₁ depth₂ : Depth} {subject₁ subject₂ : Subject}

include steps

theorem enter (h : Depth.Aligned limit₁ limit₂ depth₁ depth₂) {next₁ next₂ : Depth → Run Bool}
    (hnext : ∀ below₁ below₂, Depth.Aligned limit₁ limit₂ below₁ below₂ → 1 ≤ below₁.level →
      R (next₁ below₁) (next₂ below₂)) :
    R (Run.ofExcept depth₁.enter >>= next₁) (Run.ofExcept depth₂.enter >>= next₂) := by
  obtain ⟨hlevel, rfl, rfl⟩ := h
  have hle := steps.limit_le
  unfold Depth.enter
  by_cases h₁ : depth₁.level + 1 ≤ depth₁.limit
  · have h₂ : depth₂.level + 1 ≤ depth₂.limit := by omega
    rw [dif_pos h₁, dif_pos h₂]
    exact hnext _ _ ⟨congrArg (· + 1) hlevel, rfl, rfl⟩ (Nat.le_add_left 1 _)
  · -- the first run is stopped here; the second is too unless its limit is higher
    rw [dif_neg h₁]
    rcases Nat.lt_or_ge depth₁.limit depth₂.limit with hlt | hge
    · exact steps.cut hlt _
    · have h₂ : ¬ depth₂.level + 1 ≤ depth₂.limit := by omega
      have heq : depth₁.limit = depth₂.limit := by omega
      rw [dif_neg h₂]
      exact steps.tooDeep heq

theorem reportIf {reason : Bool} {event : Event} {run₁ run₂ : Run Bool}
    (hcombines : event.Combines) (hevent : event.Within limit₁) (h : R run₁ run₂) :
    R (Run.reportIf reason event >>= fun _ => run₁) (Run.reportIf reason event >>= fun _ => run₂) := by
  cases reason with
  | false => exact h
  | true => exact steps.report hcombines hevent h

theorem map {f : Bool → Bool} {run₁ run₂ : Run Bool} (h : R run₁ run₂) :
    R (f <$> run₁) (f <$> run₂) := by
  rw [map_eq_pure_bind, map_eq_pure_bind]
  exact steps.bind h fun holds => steps.settle (f holds)

theorem aim (h : Depth.Aligned limit₁ limit₂ depth₁ depth₂) (hpos : 1 ≤ depth₁.level)
    {target : Target} {expectation : Value} {sub₁ sub₂ : Connective → Depth → Run Bool}
    (hsub : target.leaf? expectation = none → ∀ c, R (sub₁ c depth₁) (sub₂ c depth₂))
    (hleaf : ∀ leaf, target.leaf? expectation = some leaf →
      Alike limit₁ limit₂ R subject₁ subject₂ [leaf]) :
    R (subject₁.aim depth₁ expectation sub₁ target) (subject₂.aim depth₂ expectation sub₂ target) := by
  -- a key that leads to a leaf is evaluated as that leaf
  have hown (leaf : Leaf) (hsome : target.leaf? expectation = some leaf) :
      R (subject₁.leafRun depth₁ leaf) (subject₂.leafRun depth₂ leaf) :=
    hleaf leaf hsome leaf (List.mem_singleton_self leaf) depth₁ depth₂ h hpos
  cases target with
  | parts c => exact hsub rfl c
  | opposite => exact steps.map (hsub rfl .all)
  | document name => exact hown _ rfl
  | field path => exact hown _ rfl

theorem entry (h : Depth.Aligned limit₁ limit₂ depth₁ depth₂) (key : String) (expectation : Value)
    {sub₁ sub₂ : Connective → Depth → Run Bool}
    (hsub : (MemberKey.ofKey key).target.leaf? expectation = none →
      ∀ c below₁ below₂, Depth.Aligned limit₁ limit₂ below₁ below₂ →
        R (sub₁ c below₁) (sub₂ c below₂))
    (hleaf : ∀ leaf, (MemberKey.ofKey key).target.leaf? expectation = some leaf →
      Alike limit₁ limit₂ R subject₁ subject₂ [leaf]) :
    R (subject₁.entry depth₁ key expectation sub₁) (subject₂.entry depth₂ key expectation sub₂) := by
  unfold Subject.entry
  apply steps.enter h
  intro below₁ below₂ hbelow hpos
  have haim := steps.aim hbelow hpos (fun hnone c => hsub hnone c below₁ below₂ hbelow) hleaf
  have hevent : (Event.negatedKey below₁.level).Within limit₁ := hbelow.within hpos rfl
  dsimp only
  rw [← hbelow.level_eq]
  exact steps.reportIf trivial hevent (steps.bind haim fun holds => steps.settle _)

mutual

/-- The evaluations of a query are related if those of its leaves are. -/
theorem evaluate (c : Connective) : (query : Value) →
    Alike limit₁ limit₂ R subject₁ subject₂ (leaves query) →
    ∀ depth₁ depth₂, Depth.Aligned limit₁ limit₂ depth₁ depth₂ →
      R (subject₁.evaluate c depth₁ query) (subject₂.evaluate c depth₂ query)
  | .obj members, hleaf, depth₁, depth₂, h => by
    rw [Subject.evaluate, Subject.evaluate]
    exact steps.enter h (evaluateMembers c members hleaf)
  | .arr items, hleaf, depth₁, depth₂, h => by
    rw [Subject.evaluate, Subject.evaluate]
    exact steps.enter h fun below₁ below₂ hbelow _ => evaluateItems c items hleaf below₁ below₂ hbelow
  -- a scalar is a leaf itself
  | .null, hleaf, depth₁, depth₂, h | .bool _, hleaf, depth₁, depth₂, h
  | .int _, hleaf, depth₁, depth₂, h | .float _, hleaf, depth₁, depth₂, h
  | .str _, hleaf, depth₁, depth₂, h =>
    steps.enter h (hleaf _ (List.mem_singleton_self _))

theorem evaluateMembers (c : Connective) : (members : List (String × Value)) →
    Alike limit₁ limit₂ R subject₁ subject₂ (memberLeaves members) →
    ∀ depth₁ depth₂, Depth.Aligned limit₁ limit₂ depth₁ depth₂ → 1 ≤ depth₁.level →
      R (subject₁.evaluateMembers c depth₁ members) (subject₂.evaluateMembers c depth₂ members)
  | [], _, _, _, _, _ => steps.settle _
  | (key, expectation) :: members, hleaf, depth₁, depth₂, h, hpos => by
    obtain ⟨hown, hothers⟩ := alike_append hleaf
    have hrest := evaluateMembers c members hothers depth₁ depth₂ h hpos
    rw [Subject.evaluateMembers, Subject.evaluateMembers]
    apply steps.bind
    · -- the leaves of a member are those of its expectation unless its key leads to one itself
      apply steps.entry h
      · intro hnone d
        rw [hnone] at hown
        exact evaluate d expectation hown
      · intro leaf hsome
        rw [hsome] at hown
        exact hown
    · intro holds
      split
      · have hevent : (Event.shortCircuit c key depth₁.level).Within limit₁ := h.within hpos rfl
        rw [← h.level_eq]
        exact steps.report trivial hevent (steps.settle _)
      · exact hrest

theorem evaluateItems (c : Connective) : (items : List Value) →
    Alike limit₁ limit₂ R subject₁ subject₂ (itemLeaves items) →
    ∀ depth₁ depth₂, Depth.Aligned limit₁ limit₂ depth₁ depth₂ →
      R (subject₁.evaluateItems c depth₁ items) (subject₂.evaluateItems c depth₂ items)
  | [], _, _, _, _ => steps.settle _
  | item :: items, hleaf, depth₁, depth₂, h => by
    obtain ⟨hown, hothers⟩ := alike_append hleaf
    have hitem := evaluate .all item hown depth₁ depth₂ h
    have hrest := evaluateItems c items hothers depth₁ depth₂ h
    rw [Subject.evaluateItems, Subject.evaluateItems]
    apply steps.bind hitem
    intro holds
    split
    · exact steps.settle _
    · exact hrest

end

end Combining

namespace Lockstep

variable {limit₁ limit₂ : Nat} {R : Run Bool → Run Bool → Prop} (steps : Lockstep limit₁ limit₂ R)
variable {depth₁ depth₂ : Depth} {subject₁ subject₂ : Subject}

include steps

theorem evaluate (c : Connective) (query : Value)
    (hleaf : Alike limit₁ limit₂ R subject₁ subject₂ (leaves query)) (depth₁ depth₂ : Depth)
    (h : Depth.Aligned limit₁ limit₂ depth₁ depth₂) :
    R (subject₁.evaluate c depth₁ query) (subject₂.evaluate c depth₂ query) :=
  steps.combining.evaluate c query hleaf depth₁ depth₂ h

theorem conclude (relation : Relation) (negated : Bool) (actual : Operand) (expected : Value)
    (holds : Bool) :
    R (Comparator.conclude relation negated actual expected holds)
      (Comparator.conclude relation negated actual expected holds) := by
  apply steps.report
  · exact Event.within_of_level?_eq_none rfl limit₁
  · exact steps.settle _

theorem applyTest (test : Test) (negated : Bool) (actual : Operand) (expected : Value) :
    R (Comparator.applyTest test negated actual expected)
      (Comparator.applyTest test negated actual expected) := by
  unfold Comparator.applyTest
  cases test.holds actual expected with
  | ok holds => exact steps.conclude _ _ _ _ _
  | error e => exact steps.fail e

theorem apply (h : Depth.Aligned limit₁ limit₂ depth₁ depth₂) (comparator : Comparator)
    (actual : Operand) (expected : Value) :
    R (comparator.apply depth₁ actual expected) (comparator.apply depth₂ actual expected) := by
  obtain ⟨relation, negated, name⟩ := comparator
  rcases relation with _ | ⟨test⟩ | _
  · exact steps.fail _
  · exact steps.applyTest test negated actual expected
  · apply steps.combining.enter h
    intro below₁ below₂ _ _
    exact steps.bind (steps.applyTest _ _ _ _) fun holds => steps.conclude _ _ _ _ _

/-- Two evaluations on one subject are always related. -/
theorem alike_self (subject : Subject) (parts : List Leaf) :
    Alike limit₁ limit₂ R subject subject parts := by
  intro leaf _ depth₁ depth₂ h hpos
  cases leaf with
  | scalar query => exact steps.fail _
  | whole name operand =>
    change R (subject.whole depth₁ name operand) (subject.whole depth₂ name operand)
    rw [Subject.whole, Subject.whole, ← h.level_eq]
    exact steps.report (h.within hpos rfl) (steps.apply h _ _ _)
  | field path expectation =>
    change R (subject.field depth₁ path expectation) (subject.field depth₂ path expectation)
    rw [Subject.field_eq, Subject.field_eq, ← h.level_eq]
    cases Comparator.ofExpectation path expectation with
    | error e => exact steps.fail e
    | ok named => exact steps.report (h.within hpos rfl) (steps.apply h _ _ _)

end Lockstep

end DocQuery.Query
