import DocQuery.Json.Reading
import DocQuery.Value.Assembled
/-!
Canonical values: at every depth the keys of an object are in strictly ascending order. Everything
that builds a value builds a canonical one, from lists of entries, from trees and from texts.
-/

namespace DocQuery

namespace Value

mutual

/-- Every object in the value has its keys in strictly ascending order. -/
def Canonical : Value → Prop
  | arr items => CanonicalItems items
  | obj members => Members.Ascending members ∧ CanonicalMembers members
  | null | bool _ | int _ | float _ | str _ => True

def CanonicalItems : List Value → Prop
  | [] => True
  | item :: items => Canonical item ∧ CanonicalItems items

def CanonicalMembers : List (String × Value) → Prop
  | [] => True
  | (_, value) :: members => Canonical value ∧ CanonicalMembers members

end

theorem canonicalMembers_iff {members : List (String × Value)} :
    CanonicalMembers members ↔ ∀ member ∈ members, member.2.Canonical := by
  induction members with
  | nil => exact iff_of_true trivial (List.forall_mem_nil _)
  | cons member members ih => rw [CanonicalMembers, ih, List.forall_mem_cons]

/-- An object is in order if it is built, and the values in it are. -/
theorem canonical_obj_ofList {entries : List (String × Value)} (h : CanonicalMembers entries) :
    (obj (Members.ofList entries)).Canonical := by
  refine ⟨Members.ascending_ofList entries, canonicalMembers_iff.mpr fun member hmember => ?_⟩
  exact canonicalMembers_iff.mp h member (Members.mem_of_mem_ofList hmember)

mutual

theorem canonical_assembled : (v : Value) → v.assembled.Canonical
  | null | bool _ | int _ | float _ | str _ => trivial
  | arr items => canonical_assembledItems items
  | obj entries => canonical_obj_ofList (canonical_assembledEntries entries)

theorem canonical_assembledItems : (items : List Value) → CanonicalItems (assembledItems items)
  | [] => trivial
  | item :: items => ⟨canonical_assembled item, canonical_assembledItems items⟩

theorem canonical_assembledEntries : (entries : List (String × Value)) →
    CanonicalMembers (assembledEntries entries)
  | [] => trivial
  | (_, value) :: entries => ⟨canonical_assembled value, canonical_assembledEntries entries⟩

end

theorem canonical_ofInteger (n : Json.Integer) : (ofInteger n).Canonical := by
  unfold ofInteger
  split <;> trivial

mutual

theorem canonical_ofTree : (tree : Json.Tree) → (ofTree tree).Canonical
  | .null | .bool _ | .float _ _ | .str _ => trivial
  | .int n => canonical_ofInteger n
  | .arr items => canonical_itemsOfTrees items
  | .obj members => canonical_obj_ofList (canonical_membersOfTrees members)

theorem canonical_itemsOfTrees : (items : List Json.Tree) → CanonicalItems (itemsOfTrees items)
  | [] => trivial
  | item :: items => ⟨canonical_ofTree item, canonical_itemsOfTrees items⟩

theorem canonical_membersOfTrees : (members : List (String × Json.Tree)) →
    CanonicalMembers (membersOfTrees members)
  | [] => trivial
  | (_, tree) :: members => ⟨canonical_ofTree tree, canonical_membersOfTrees members⟩

end

end Value

/-- A value that has been built: each of its objects holds its members in order, one a key. -/
structure CanonicalValue where
  value : Value
  canonical : value.Canonical

/-- A document that has been built. -/
structure CanonicalDocument where
  members : Document
  canonical : (Value.obj members).Canonical

namespace CanonicalValue

def assembled (v : Value) : CanonicalValue := ⟨v.assembled, v.canonical_assembled⟩

def ofTree (tree : Json.Tree) : CanonicalValue := ⟨.ofTree tree, Value.canonical_ofTree tree⟩

def ofText (text : String) : Except MatchError CanonicalValue :=
  match Json.Tree.ofText? text with
  | some tree => .ok (ofTree tree)
  | none => .error .malformed

/-- Nothing else is read from a text. -/
theorem map_value_ofText (text : String) : (ofText text).map value = Value.ofText text := by
  unfold ofText Value.ofText
  cases Json.Tree.ofText? text <;> rfl

end CanonicalValue

namespace CanonicalDocument

def assembled (entries : List (String × Value)) : CanonicalDocument :=
  ⟨.assembled entries, (Value.obj entries).canonical_assembled⟩

def value (document : CanonicalDocument) : CanonicalValue :=
  ⟨.obj document.members, document.canonical⟩

end CanonicalDocument

end DocQuery
