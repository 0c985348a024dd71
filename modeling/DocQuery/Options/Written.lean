import DocQuery.Options
import DocQuery.Value.Literal
/-!
How settings are written: a depth as an integer, a separator as a string of one character, and
either or both as members of an object.
-/

namespace DocQuery

/-- The values of the members under a name, as they stand. -/
def Json.Literal.under (name : String) (members : List (Option String × Json.Literal)) :
    List Json.Literal :=
  (members.filter fun member => member.1 = some name).map Prod.snd

namespace Options

open Json (Literal)

def depthLiteral (n : Nat) : Literal := .number (.ofInt n)

def separatorLiteral (c : Char) : Literal := .string (some (String.singleton c))

namespace Draft

/-- The settings that a draft has, as members. -/
def members (draft : Draft) : List (Option String × Literal) :=
  (draft.maxDepth.map fun n => (some depthName, depthLiteral n)).toList ++
    (draft.separator.map fun c => (some separatorName, separatorLiteral c)).toList

/-- Every key is text, and the members with one of the two names are those of the draft, in any
order. Any other members may stand among them. -/
structure WrittenIn (draft : Draft) (members : List (Option String × Literal)) : Prop where
  keyed : ∀ member ∈ members, member.1.isSome
  settings : (members.filter fun member =>
    member.1 = some depthName ∨ member.1 = some separatorName).Perm draft.members

end Draft

/-- The settings as a draft that has them both. -/
def written (options : Options) : Draft := ⟨some options.maxDepth, some options.separator⟩

/-- The setting that some values give, read in turn: where one is held already, none may come. -/
def gather {α : Type} (read : Literal → Option α) : Option α → List Literal → Option (Option α)
  | held, [] => some held
  | some _, _ :: _ => none
  | none, value :: values => (read value).bind fun x => gather read (some x) values

end Options

end DocQuery
