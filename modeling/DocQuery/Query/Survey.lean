import DocQuery.Query.Evaluation
/-!
Surveys: the evaluation of a query that visits every part, also after one has settled the whole, and
that collects the errors of all of them.
-/

namespace DocQuery.Query

/-- All errors of the parts visited, or the answer if there are none. -/
abbrev Survey := Except (List MatchError) Bool

def Connective.join : Connective → Bool → Bool → Bool
  | all, a, b => a && b
  | any, a, b => a || b

namespace Survey

def ofExcept : Except MatchError Bool → Survey
  | .ok holds => .ok holds
  | .error e => .error [e]

/-- Two parts under a connective, both of which are visited. -/
def both (c : Connective) : Survey → Survey → Survey
  | .ok a, .ok b => .ok (c.join a b)
  | .ok _, .error fs => .error fs
  | .error es, .ok _ => .error es
  | .error es, .error fs => .error (es ++ fs)

end Survey

namespace Subject

/-- Visits one member. `sub` visits the expectation as a sub-query. -/
def surveyEntry (subject : Subject) (depth : Depth) (key : String) (expectation : Value)
    (sub : Connective → Depth → Survey) : Survey :=
  match depth.enter with
  | .error e => .error [e]
  | .ok depth =>
    let ⟨target, negated⟩ := MemberKey.ofKey key
    let found := match target with
      | .parts c => sub c depth
      | .opposite => (sub .all depth).map (!·)
      | .document name => .ofExcept (subject.whole depth name expectation).result
      | .field path => .ofExcept (subject.field depth path expectation).result
    found.map (· != negated)

mutual

/-- Visits every part of a query. -/
def survey (subject : Subject) (c : Connective) (depth : Depth) : Value → Survey
  | .obj members =>
    match depth.enter with
    | .ok depth => surveyMembers subject c depth members
    | .error e => .error [e]
  | .arr items =>
    match depth.enter with
    | .ok depth => surveyItems subject c depth items
    | .error e => .error [e]
  | query =>
    match depth.enter with
    | .ok _ => .error [.queryShape query.kind]
    | .error e => .error [e]

def surveyMembers (subject : Subject) (c : Connective) (depth : Depth) :
    List (String × Value) → Survey
  | [] => .ok !c.decisive
  | (key, expectation) :: members =>
    .both c (subject.surveyEntry depth key expectation fun c depth =>
      survey subject c depth expectation) (surveyMembers subject c depth members)

def surveyItems (subject : Subject) (c : Connective) (depth : Depth) : List Value → Survey
  | [] => .ok !c.decisive
  | item :: items =>
    .both c (survey subject .all depth item) (surveyItems subject c depth items)

end

end Subject

end DocQuery.Query
