import DocQuery.Error
import DocQuery.Query.Reach
/-!
Well-formed queries: those whose shape alone rules out every error but two, a limit that is too low
and an ordering of something that is not a number. A leaf that is not well-formed has a fault, which
can be read off it without a document.
-/

namespace DocQuery.Query

/-- The numbers in which an operand orders. -/
def orderingDomain? : Value → Option NumericDomain
  | .int _ => some .int
  | .float _ => some .float
  | _ => none

def Keyword.isOrdering : Keyword → Bool
  | .relation (.test .gt) | .relation (.test .gte) => true
  | .relation (.test .lt) | .relation (.test .lte) => true
  | _ => false

/-- The operand has a form that the comparator of a name accepts. -/
def operandFits (keyword : Option Keyword) (operand : Value) : Bool :=
  match keyword with
  | none | some (.connective _) => false
  | some (.relation .not) | some (.relation (.test .is)) => true
  | some (.relation (.test .isIn)) => operand.kind = .array
  | some (.relation (.test .gt)) | some (.relation (.test .gte))
  | some (.relation (.test .lt)) | some (.relation (.test .lte)) =>
    operand.kind = .integer ∨ operand.kind = .float

/-- The leaf has the form that its place asks for. -/
def Leaf.fits : Leaf → Bool
  | scalar _ => false
  | whole name operand =>
    match name.keyword with
    | some (.relation (.test .is)) => true
    | some (.relation (.test .isIn)) => operand.kind = .array
    | _ => false
  | field _ expectation =>
    match expectation with
    | .str _ | .int _ | .float _ | .arr _ => true
    | .obj [(name, operand)] => operandFits (Marked.ofKey name).keyword operand
    | .obj _ | .null | .bool _ => false

/-- What a named comparator fails with on every actual operand. -/
def operandFault (name : Marked) (operand : Value) : Option MatchError :=
  match name.keyword with
  | none | some (.connective _) => some (.unknownComparator name.written)
  | some (.relation .not) | some (.relation (.test .is)) => none
  | some (.relation (.test .isIn)) =>
    if operand.kind = .array then none else some (.notAnArray operand.kind)
  | some (.relation (.test _)) =>
    if (orderingDomain? operand).isSome then none else some (.notOrdered operand.kind)

/--
What a leaf fails with on every document. A document is no number, so an ordering against the whole
of it fails even if its operand fits.
-/
def Leaf.fault : Leaf → Option MatchError
  | scalar query => some (.queryShape query.kind)
  | whole name operand =>
    (operandFault name operand).or <|
      if name.keyword.any Keyword.isOrdering then (orderingDomain? operand).map .castFailed else none
  | field path expectation =>
    match expectation with
    | .str _ | .int _ | .float _ | .arr _ => none
    | .obj [] => some (.unknownComparator "")
    | .obj [(name, operand)] => operandFault (Marked.ofKey name) operand
    | .obj members => some (.multipleExpectations path members.length)
    | .null | .bool _ => some (.notAMap expectation.kind)

/-- The leaf orders the field at a path against an operand of a domain. -/
def Leaf.Orders (path : String) (domain : NumericDomain) : Leaf → Prop
  | field own (.obj [(name, operand)]) =>
    own = path ∧ (Marked.ofKey name).keyword.any Keyword.isOrdering = true ∧
      orderingDomain? operand = some domain
  | _ => False

/-- All leaves of the query have the form that their place asks for. -/
def wellFormed (query : Value) : Bool := (leaves query).all Leaf.fits

end DocQuery.Query
