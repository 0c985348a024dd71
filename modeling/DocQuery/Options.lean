import DocQuery.Error
import DocQuery.Json.Literal
/-!
Evaluation settings, and their JSON form: an object of optional members, or an array of both
settings with the tail left out.
-/

namespace DocQuery

structure Options where
  /-- The last level of nesting that an evaluation may reach. -/
  maxDepth : Nat := 128
  separator : Char := '.'
  deriving DecidableEq, Repr

namespace Options

/-- The settings that a text has given so far. -/
structure Draft where
  maxDepth : Option Nat := none
  separator : Option Char := none
  deriving DecidableEq, Repr

/-- The settings, what is missing having its default. -/
def Draft.complete (draft : Draft) : Options :=
  { maxDepth := draft.maxDepth.getD ({} : Options).maxDepth
    separator := draft.separator.getD ({} : Options).separator }

/-- A depth: an integer from zero up to but not including 2⁶⁴. -/
def depth? : Json.Literal → Option Nat
  | .number n =>
    n.integer?.bind fun i => if 0 ≤ i ∧ i.toNat < UInt64.size then some i.toNat else none
  | _ => none

/-- A separator: a string of just one character. -/
def separator? : Json.Literal → Option Char
  | .string (some s) =>
    match s.toList with
    | [c] => some c
    | _ => none
  | _ => none

/-- Takes a depth, unless there is one already. -/
def Draft.putDepth (draft : Draft) (literal : Json.Literal) : Option Draft :=
  match draft.maxDepth with
  | some _ => none
  | none => (depth? literal).map fun n => { draft with maxDepth := some n }

def Draft.putSeparator (draft : Draft) (literal : Json.Literal) : Option Draft :=
  match draft.separator with
  | some _ => none
  | none => (separator? literal).map fun c => { draft with separator := some c }

def depthName : String := "max_depth"

def separatorName : String := "path_separator"

/-- Takes one member of an object; members with other names say nothing. -/
def Draft.put (draft : Draft) : Option String × Json.Literal → Option Draft
  | (none, _) => none
  | (some key, literal) =>
    if key = depthName then draft.putDepth literal
    else if key = separatorName then draft.putSeparator literal
    else some draft

def ofLiteral? : Json.Literal → Option Options
  | .object members => (members.foldlM Draft.put {}).map Draft.complete
  | .array [] => some {}
  | .array [depth] => (Draft.putDepth {} depth).map Draft.complete
  | .array [depth, separator] =>
    ((Draft.putDepth {} depth).bind fun draft => draft.putSeparator separator).map Draft.complete
  | _ => none

def ofText (text : String) : Except MatchError Options :=
  match (Json.Literal.ofText? text).bind ofLiteral? with
  | some options => .ok options
  | none => .error .malformed

/-- All seven letter escapes are in use, and other control characters below U+0020 are coded. -/
def escaping : Text.Escaping where
  letters := [('"', '"'), ('\\', '\\'), ('\x08', 'b'), ('\x0c', 'f'), ('\n', 'n'), ('\r', 'r'),
    ('\t', 't')]
  coded c := c.toNat < 0x20

def toText (options : Options) : String :=
  String.ofList ('{' :: escaping.quote depthName ++ ':' :: (toString options.maxDepth).toList
    ++ ',' :: escaping.quote separatorName
    ++ ':' :: escaping.quote (String.ofList [options.separator]) ++ ['}'])

end Options

end DocQuery
