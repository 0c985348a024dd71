import DocQuery.Error
import DocQuery.Json.Literal
import DocQuery.Json.Tree
/-!
Values from JSON text, which is read as a tree first: every string has to have content, every number
a finite value, containers nest at most 127 deep, and of members under one key the last counts.
-/

namespace DocQuery

/-- How deep the containers of a text may nest. -/
def maxNesting : Nat := 127

namespace Json

/-- The nearest double, which has to be finite. -/
def Numeral.float? (n : Numeral) : Option Tree :=
  let x := Double.ofDecimal n.negative n.decimal
  if h : x.isFinite = true then some (.float x h) else none

/-- What a number is read as: an integer if it is one of 64 bits, and otherwise a double. -/
def Numeral.tree? (n : Numeral) : Option Tree :=
  match n.integer?.bind Integer.ofInt? with
  | some i => some (.int i)
  | none => n.float?

namespace Literal

mutual

/-- The tree of a literal, in which containers may nest as deep as there is room. -/
def tree? (room : Nat) : Literal → Option Tree
  | null => some .null
  | bool b => some (.bool b)
  | number n => n.tree?
  | string content => content.map .str
  | array items =>
    match room with
    | 0 => none
    | room + 1 => (itemTrees? room items).map .arr
  | object members =>
    match room with
    | 0 => none
    | room + 1 => (memberTrees? room members).map fun members => .obj (Members.ofList members)

def itemTrees? (room : Nat) : List Literal → Option (List Tree)
  | [] => some []
  | item :: items => do
    let tree ← tree? room item
    let trees ← itemTrees? room items
    return tree :: trees

/-- The members of an object as written, each with its tree. -/
def memberTrees? (room : Nat) : List (Option String × Literal) → Option (List (String × Tree))
  | [] => some []
  | (key, member) :: members => do
    let key ← key
    let tree ← tree? room member
    let trees ← memberTrees? room members
    return (key, tree) :: trees

end

end Literal

def Tree.ofText? (text : String) : Option Tree :=
  (Literal.ofText? text).bind (Literal.tree? maxNesting)

end Json

def Value.ofText (text : String) : Except MatchError Value :=
  match Json.Tree.ofText? text with
  | some tree => .ok (ofTree tree)
  | none => .error .malformed

/-- Reads a document from JSON text, which has to hold an object. -/
def Document.ofText (text : String) : Except MatchError Document :=
  match Value.ofText text with
  | .ok (.obj members) => .ok members
  | .ok value => .error (.notAMap value.kind)
  | .error e => .error e

end DocQuery
