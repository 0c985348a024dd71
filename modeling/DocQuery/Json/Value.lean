import DocQuery.Json.Reading
/-!
What the literal of a text stands for, without the tree between: of an array the values of its
items, and of an object the values of its members, the last one under each key.
-/

namespace DocQuery

namespace Json

def Numeral.value? (n : Numeral) : Option Value := n.tree?.map Value.ofTree

theorem Numeral.map_ofTree_float? (n : Numeral) :
    n.float?.map Value.ofTree =
      if (Double.ofDecimal n.negative n.decimal).isFinite = true then
        some (.float (Double.ofDecimal n.negative n.decimal))
      else none := by
  unfold float?
  dsimp only
  split <;> rfl

namespace Literal

mutual

/-- The value of a literal, in which containers may nest as deep as there is room. -/
def value? (room : Nat) : Literal → Option Value
  | null => some .null
  | bool b => some (.bool b)
  | number n => n.value?
  | string content => content.map .str
  | array items =>
    match room with
    | 0 => none
    | room + 1 => (itemValues? room items).map .arr
  | object members =>
    match room with
    | 0 => none
    | room + 1 => (memberValues? room members).map fun members => .obj (Members.ofList members)

def itemValues? (room : Nat) : List Literal → Option (List Value)
  | [] => some []
  | item :: items => do
    let value ← value? room item
    let values ← itemValues? room items
    return value :: values

/-- The members of an object as written, each with its value. -/
def memberValues? (room : Nat) : List (Option String × Literal) → Option (List (String × Value))
  | [] => some []
  | (key, member) :: members => do
    let key ← key
    let value ← value? room member
    let values ← memberValues? room members
    return (key, value) :: values

end

theorem itemValues?_cons_eq_some {room : Nat} {item : Literal} {items : List Literal}
    {values : List Value} :
    itemValues? room (item :: items) = some values ↔ ∃ v lasts, item.value? room = some v ∧
      itemValues? room items = some lasts ∧ v :: lasts = values := by
  simp [itemValues?, Option.bind_eq_some_iff]

theorem memberValues?_cons_eq_some {room : Nat} {key : Option String} {member : Literal}
    {members : List (Option String × Literal)} {entries : List (String × Value)} :
    memberValues? room ((key, member) :: members) = some entries ↔ ∃ k v lasts, key = some k ∧
      member.value? room = some v ∧ memberValues? room members = some lasts ∧
      (k, v) :: lasts = entries := by
  simp [memberValues?, Option.bind_eq_some_iff]

/-- An object of trees is built again without a change. -/
theorem ofTree_obj_ofList (members : List (String × Tree)) :
    Value.ofTree (.obj (Members.ofList members)) =
      .obj (Members.ofList (Value.membersOfTrees members)) := by
  have hascending := Members.ascending_ofList (Value.membersOfTrees members)
  rw [Value.ofTree, Value.membersOfTrees_eq_map, Members.map_ofList, ← Value.membersOfTrees_eq_map,
    Members.ofList_eq_self hascending]

mutual

/-- The tree of a literal makes the value of the literal. -/
theorem map_ofTree_tree? : (room : Nat) → (literal : Literal) →
    (literal.tree? room).map Value.ofTree = literal.value? room
  | _, null | _, bool _ | _, number _ => rfl
  | _, string content => by cases content <;> rfl
  | 0, array _ | 0, object _ => rfl
  | room + 1, array items => by
    rw [tree?, value?, ← map_itemsOfTrees_itemTrees? room items, Option.map_map, Option.map_map]
    rfl
  | room + 1, object members => by
    rw [tree?, value?, ← map_membersOfTrees_memberTrees? room members, Option.map_map,
      Option.map_map]
    exact congrArg (Option.map · _) (funext ofTree_obj_ofList)

theorem map_itemsOfTrees_itemTrees? : (room : Nat) → (items : List Literal) →
    (itemTrees? room items).map Value.itemsOfTrees = itemValues? room items
  | _, [] => rfl
  | room, item :: items => by
    rw [itemTrees?, itemValues?, ← map_ofTree_tree? room item,
      ← map_itemsOfTrees_itemTrees? room items]
    cases tree? room item <;> cases itemTrees? room items <;> rfl

theorem map_membersOfTrees_memberTrees? : (room : Nat) →
    (members : List (Option String × Literal)) →
    (memberTrees? room members).map Value.membersOfTrees = memberValues? room members
  | _, [] => rfl
  | room, (key, member) :: members => by
    rw [memberTrees?, memberValues?, ← map_ofTree_tree? room member,
      ← map_membersOfTrees_memberTrees? room members]
    cases key <;> cases tree? room member <;> cases memberTrees? room members <;> rfl

end

end Literal

end Json

namespace Value

open Json (Literal)

/-- A text is read as its literal is. -/
theorem ofText_of_literal {text : String} {literal : Literal}
    (h : Literal.ofText? text = some literal) :
    ofText text = match literal.value? maxNesting with
      | some value => .ok value
      | none => .error .malformed := by
  rw [ofText, Json.Tree.ofText?, h, Option.bind_some, ← Literal.map_ofTree_tree?]
  cases literal.tree? maxNesting <;> rfl

theorem ofText_eq_ok_iff {text : String} {literal : Literal}
    (h : Literal.ofText? text = some literal) {v : Value} :
    ofText text = .ok v ↔ literal.value? maxNesting = some v := by
  rw [ofText_of_literal h]
  cases literal.value? maxNesting <;> simp

/-- Only what spells a literal is read, and that is read as its value. -/
theorem exists_literal_of_ofText {text : String} {v : Value} (h : ofText text = .ok v) :
    ∃ literal, Literal.ofText? text = some literal ∧ literal.value? maxNesting = some v := by
  cases hread : Literal.ofText? text with
  | some literal => exact ⟨literal, rfl, (ofText_eq_ok_iff hread).mp h⟩
  | none =>
    rw [ofText, Json.Tree.ofText?, hread] at h
    cases h

end Value

end DocQuery
