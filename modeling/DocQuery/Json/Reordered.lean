import DocQuery.Json.Literal
/-!
Objects whose entries are listed in another order. Entries under different keys may change places, and
those under one key keep their order, so that the last of them stays the last.
-/

namespace DocQuery

/-- Under every key stand the same entries in the same order. -/
def Members.SameByKey {κ α : Type} [DecidableEq κ] (entries others : List (κ × α)) : Prop :=
  ∀ key, (entries.filter fun entry => entry.1 = key) = others.filter fun entry => entry.1 = key

/-- Trees of arrays and objects that differ only in the order in which objects list their entries, at
any depth. -/
inductive Reordered {κ α : Type} [DecidableEq κ] (array : List α → α)
    (object : List (κ × α) → α) : α → α → Prop where
  | refl (tree : α) : Reordered array object tree tree
  | trans {tree middle other : α} : Reordered array object tree middle →
    Reordered array object middle other → Reordered array object tree other
  | entries {entries others : List (κ × α)} : Members.SameByKey entries others →
    Reordered array object (object entries) (object others)
  | item {item other : α} (before after : List α) : Reordered array object item other →
    Reordered array object (array (before ++ item :: after)) (array (before ++ other :: after))
  | member {member other : α} (before : List (κ × α)) (key : κ) (after : List (κ × α)) :
    Reordered array object member other →
    Reordered array object (object (before ++ (key, member) :: after))
      (object (before ++ (key, other) :: after))

/-- Texts whose literals differ only in such an order. -/
def Json.ReorderedTexts (text other : String) : Prop :=
  ∃ literal reordered, Literal.ofText? text = some literal ∧
    Literal.ofText? other = some reordered ∧
    Reordered Literal.array Literal.object literal reordered

end DocQuery
