import DocQuery.Proofs.Threshold
import DocQuery.Query.Parts
import DocQuery.Query.Place

/-! A query may be replaced inside another one by any query that is evaluated by the same run in that
place. -/

namespace DocQuery.Query

namespace Subject

variable (subject : Subject) (c : Connective)

theorem entry_eq {depth below : Depth} (hbelow : depth.enter = .ok below) (key : String)
    (expectation : Value) (sub : Connective → Depth → Run Bool) :
    subject.entry depth key expectation sub =
      Run.reportIf (MemberKey.ofKey key).negated (.negatedKey below.level) >>= fun _ =>
        subject.aim below expectation sub (MemberKey.ofKey key).target >>= fun holds =>
          pure (holds != (MemberKey.ofKey key).negated) := by
  rw [entry, hbelow]
  rfl

/-- A key hands on what the evaluation of its sub-query does. -/
theorem memberRun_congr {depth below : Depth} {key : String} {d : Connective}
    {query other : Value} (hbelow : depth.enter = .ok below)
    (hkey : (MemberKey.ofKey key).target.connective? = some d)
    (h : subject.evaluate d below query = subject.evaluate d below other) :
    subject.memberRun depth (key, query) = subject.memberRun depth (key, other) := by
  have haim : subject.aim below query (fun c below => subject.evaluate c below query)
        (MemberKey.ofKey key).target =
      subject.aim below other (fun c below => subject.evaluate c below other)
        (MemberKey.ofKey key).target := by
    cases htarget : (MemberKey.ofKey key).target with
    | parts e =>
      rw [htarget] at hkey
      cases hkey
      exact h
    | opposite =>
      rw [htarget] at hkey
      cases hkey
      exact congrArg ((!·) <$> ·) h
    | document name | field path =>
      rw [htarget] at hkey
      cases hkey
  rw [memberRun, memberRun, entry_eq subject hbelow, entry_eq subject hbelow, haim]

theorem evaluateItems_congr {depth : Depth} {item other : Value}
    (h : subject.evaluate .all depth item = subject.evaluate .all depth other)
    (before after : List Value) :
    subject.evaluateItems c depth (before ++ item :: after) =
      subject.evaluateItems c depth (before ++ other :: after) := by
  induction before with
  | nil => rw [List.nil_append, List.nil_append, evaluateItems, evaluateItems, h]
  | cons first before ih =>
    rw [List.cons_append, List.cons_append, evaluateItems, evaluateItems, ih]

theorem evaluateMembers_congr {depth : Depth} {key : String} {query other : Value}
    (h : subject.memberRun depth (key, query) = subject.memberRun depth (key, other))
    (before after : List (String × Value)) :
    subject.evaluateMembers c depth (before ++ (key, query) :: after) =
      subject.evaluateMembers c depth (before ++ (key, other) :: after) := by
  induction before with
  | nil =>
    unfold memberRun at h
    rw [List.nil_append, List.nil_append, evaluateMembers, evaluateMembers, h]
  | cons first before ih =>
    rw [List.cons_append, List.cons_append, evaluateMembers, evaluateMembers, ih]

/-- The evaluation around a place depends on that in the place alone. -/
theorem evaluate_fill_congr {query other : Value} {d : Connective} {inside : Depth}
    (h : subject.evaluate d inside query = subject.evaluate d inside other) (place : Place)
    (depth : Depth) (hreach : place.reach c depth = some (d, inside)) :
    subject.evaluate c depth (place.fill query) = subject.evaluate c depth (place.fill other) := by
  induction place generalizing c depth with
  | whole =>
    cases hreach
    exact h
  | item before inner after ih =>
    rw [Place.reach] at hreach
    rw [Place.fill, Place.fill, evaluate, evaluate]
    cases hbelow : depth.enter with
    | error e => rfl
    | ok below =>
      rw [hbelow] at hreach
      exact subject.evaluateItems_congr c (ih .all below hreach) before after
  | member before key inner after ih =>
    rw [Place.reach] at hreach
    rw [Place.fill, Place.fill, evaluate, evaluate]
    cases hbelow : depth.enter with
    | error e => rfl
    | ok below =>
      rw [hbelow] at hreach
      split at hreach
      · rename_i inner' e hinner hkey
        have hmember := subject.memberRun_congr hinner hkey (ih e inner' hreach)
        exact subject.evaluateMembers_congr c hmember before after
      · cases hreach

end Subject

/-- So do the answer and the steps of the whole. -/
theorem trace_fill_congr {subject : Subject} {query other : Value} {c : Connective} {depth : Depth}
    (h : subject.evaluate c depth query = subject.evaluate c depth other) {place : Place}
    {limit : Nat} (hreach : place.reach .all (.top limit) = some (c, depth)) :
    satisfied ⟨limit, subject.separator⟩ (place.fill query) subject.document =
        satisfied ⟨limit, subject.separator⟩ (place.fill other) subject.document ∧
      (trace ⟨limit, subject.separator⟩ (place.fill query) subject.document).events.filter
          (·.severity = .trace) =
        (trace ⟨limit, subject.separator⟩ (place.fill other) subject.document).events.filter
          (·.severity = .trace) := by
  have hwhole := subject.evaluate_fill_congr .all h place (.top limit) hreach
  constructor
  · rw [satisfied_eq_evaluate, satisfied_eq_evaluate]
    exact congrArg Run.result hwhole
  · rw [trace_steps, trace_steps]
    exact congrArg (fun run => run.events.filter (·.severity = .trace)) hwhole

end DocQuery.Query
