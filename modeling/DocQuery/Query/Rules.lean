import DocQuery.Double.Nearest
import DocQuery.Query.Meaning
import DocQuery.Value.Exact
/-!
The rules for the operands of a query, said without the evaluation: how the names of a path lead
down through a document, which values are the same, and in which domain numbers are ordered.
-/

namespace DocQuery

namespace Exact

/-- What is left of a number without its fraction, which is taken off toward zero. -/
def wholePart : Exact → Exact :=
  WithBot.map (WithTop.map fun q => if 0 ≤ q then (⌊q⌋ : ℚ) else (⌈q⌉ : ℚ))

/-- The nearest number between the least and the greatest 64-bit integer. -/
def clamped (x : Exact) : Exact :=
  max (.ofRat Int64.minValue.toInt) (min x (.ofRat Int64.maxValue.toInt))

end Exact

namespace Query.Rules

/-- What a value holds under a name. Only objects hold anything. -/
def member? (value : Value) (name : String) : Option Value :=
  match value with
  | .obj members => members.lookup name
  | _ => none

/-- What the names between the separators lead to, each of them one level further down. -/
def resolve (separator : Char) (path : String) (document : Document) : Option Value :=
  ((path.toList.splitOn separator).map String.ofList).foldlM member? (.obj document)

mutual

/-- Values of one kind with the same content. Doubles have to have one exact value, items go by
their places, and members by their names. -/
def same : Value → Value → Bool
  | .null, .null => true
  | .bool a, .bool b => a == b
  | .int m, .int n => m.toInt == n.toInt
  | .float x, .float y => x.exactValue?.isSome && x.exactValue? == y.exactValue?
  | .str s, .str t => s == t
  | .arr xs, .arr ys => sameItems xs ys
  | .obj xs, .obj ys => (ys.all fun y => (xs.lookup y.1).isSome) && sameMembers xs ys
  | _, _ => false

def sameItems : List Value → List Value → Bool
  | [], [] => true
  | x :: xs, y :: ys => same x y && sameItems xs ys
  | _, _ => false

/-- Under each of the names the others hold the same. -/
def sameMembers : List (String × Value) → List (String × Value) → Bool
  | [], _ => true
  | (name, x) :: xs, ys => (ys.lookup name).any (same x) && sameMembers xs ys

end

end Query.Rules

namespace Query

/-- How a number comes into the domain of the number that it is ordered against. -/
structure Coercion where
  /-- The double that an integer widens to, a nearest one. -/
  widen : Int64 → Double
  nearest : ∀ n, (widen n).IsNearest n.toInt
  /-- The number that a double counts as against an integer. -/
  narrow : Double → Option Exact

namespace Coercion

/-- A double counts as its whole part, and NaN as no number. -/
def Truncates (coercion : Coercion) : Prop :=
  ∀ x, coercion.narrow x = x.exactValue?.map Exact.wholePart

/-- A double counts as its whole part, and beyond the integers as the last of them. What NaN counts
as is left open. -/
def Saturates (coercion : Coercion) : Prop :=
  ∀ x e, x.exactValue? = some e → coercion.narrow x = some e.wholePart.clamped

/-- The order of two numbers, if both are numbers. -/
def compare? (x y : Option Exact) : Option Ordering := do
  return cmp (← x) (← y)

/-- The order of two operands: the expected one selects the domain, in which the actual one has to
be a number. -/
def order (coercion : Coercion) (actual expected : Value) :
    Except MatchError (Option Ordering) :=
  match expected with
  | .int _ =>
    match actual with
    | .int _ => .ok (compare? actual.exactValue? expected.exactValue?)
    | .float x => .ok (compare? (coercion.narrow x) expected.exactValue?)
    | _ => .error (.castFailed .int)
  | .float _ =>
    match actual with
    | .int n => .ok (compare? (coercion.widen n).exactValue? expected.exactValue?)
    | .float _ => .ok (compare? actual.exactValue? expected.exactValue?)
    | _ => .error (.castFailed .float)
  | _ => .error (.notOrdered expected.kind)

/-- A document read by the rules. -/
def reading (coercion : Coercion) (separator : Char) (document : Document) : Reading where
  document
  field path := (Rules.resolve separator path document).getD .null
  comparison := ⟨Rules.same, coercion.order⟩

end Coercion

end Query

end DocQuery
