import DocQuery.Json.Literal
import DocQuery.Value.Chain
/-!
Places in a literal: items of arrays and members of objects, one inside the other.
-/

namespace DocQuery.Json.Literal

/-- A place for a literal, with everything that stands around it. -/
inductive Place where
  | whole
  | item (before : List Literal) (inner : Place) (after : List Literal)
  | member (before : List (Option String × Literal)) (key : String) (inner : Place)
      (after : List (Option String × Literal))

namespace Place

/-- The literal with another one put into the place. -/
def fill (literal : Literal) : Place → Literal
  | whole => literal
  | item before inner after => .array (before ++ inner.fill literal :: after)
  | member before key inner after => .object (before ++ (some key, inner.fill literal) :: after)

/-- The steps that lead to the place in the value of the literal. -/
def steps : Place → List Value.Step
  | whole => []
  | item before inner _ => .item before.length :: inner.steps
  | member _ key inner _ => .member key :: inner.steps

/-- On the way to the place no member is followed by another one under its key. -/
def Lasting : Place → Prop
  | whole => True
  | item _ inner _ => inner.Lasting
  | member _ key inner after => some key ∉ after.map Prod.fst ∧ inner.Lasting

end Place

end DocQuery.Json.Literal
