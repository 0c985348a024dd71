import DocQuery.Double.Rounding
import DocQuery.Value.Basic
import DocQuery.Value.Members
/-!
The JSON data model, in which a number is an integer of 64 bits or a finite double, and the way of
values into it and back. What it has no place for becomes null, its greatest integers become
doubles, and on either way every object is built again from its members.
-/

namespace DocQuery

/-- An integer of 64 bits, with a sign or without one. -/
structure Json.Integer where
  toInt : Int
  inRange : Int64.minValue.toInt ≤ toInt ∧ toInt < UInt64.size

namespace Json.Integer

def ofInt? (i : Int) : Option Integer :=
  if h : Int64.minValue.toInt ≤ i ∧ i < UInt64.size then some ⟨i, h⟩ else none

def ofInt64 (n : Int64) : Integer where
  toInt := n.toInt
  inRange := ⟨n.minValue_le_toInt, Int.lt_trans n.toInt_lt (by decide)⟩

theorem ofInt?_toInt (n : Int64) : ofInt? n.toInt = some (ofInt64 n) := dif_pos (ofInt64 n).inRange

end Json.Integer

inductive Json.Tree where
  | null
  | bool (b : Bool)
  | int (n : Json.Integer)
  | float (x : Double) (isFinite : x.isFinite = true)
  | str (s : String)
  | arr (items : List Json.Tree)
  | obj (members : List (String × Json.Tree))

namespace Value

mutual

def toTree : Value → Json.Tree
  | null => .null
  | bool b => .bool b
  | int n => .int (.ofInt64 n)
  | float x => if h : x.isFinite = true then .float x h else .null
  | str s => .str s
  | arr items => .arr (itemTrees items)
  | obj members => .obj (Members.ofList (memberTrees members))

def itemTrees : List Value → List Json.Tree
  | [] => []
  | item :: items => item.toTree :: itemTrees items

def memberTrees : List (String × Value) → List (String × Json.Tree)
  | [] => []
  | (key, value) :: members => (key, value.toTree) :: memberTrees members

end

/-- An integer that fits with its sign stays one, and any other becomes the nearest double. -/
def ofInteger (n : Json.Integer) : Value :=
  if n.toInt ≤ Int64.maxValue.toInt then int (.ofInt n.toInt) else float (.ofInt n.toInt)

theorem ofInteger_ofInt64 (n : Int64) : ofInteger (.ofInt64 n) = int n := by
  have hfits : (Json.Integer.ofInt64 n).toInt ≤ Int64.maxValue.toInt := n.toInt_le
  have hsame : Int64.ofInt (Json.Integer.ofInt64 n).toInt = n := Int64.ofInt_toInt n
  rw [ofInteger, if_pos hfits, hsame]

mutual

def ofTree : Json.Tree → Value
  | .null => null
  | .bool b => bool b
  | .int n => ofInteger n
  | .float x _ => float x
  | .str s => str s
  | .arr items => arr (itemsOfTrees items)
  | .obj members => obj (Members.ofList (membersOfTrees members))

def itemsOfTrees : List Json.Tree → List Value
  | [] => []
  | item :: items => ofTree item :: itemsOfTrees items

def membersOfTrees : List (String × Json.Tree) → List (String × Value)
  | [] => []
  | (key, tree) :: members => (key, ofTree tree) :: membersOfTrees members

end

theorem itemsOfTrees_eq_map (items : List Json.Tree) : itemsOfTrees items = items.map ofTree := by
  induction items with
  | nil => rfl
  | cons item items ih => rw [itemsOfTrees, ih, List.map_cons]

theorem membersOfTrees_eq_map (members : List (String × Json.Tree)) :
    membersOfTrees members = members.map fun member => (member.1, ofTree member.2) := by
  induction members with
  | nil => rfl
  | cons member members ih => rw [membersOfTrees, ih, List.map_cons]

theorem ofTree_arr (items : List Json.Tree) : ofTree (.arr items) = arr (items.map ofTree) := by
  rw [ofTree, itemsOfTrees_eq_map]

/-- Within a tree as well an object holds what its members make. -/
theorem ofTree_obj (members : List (String × Json.Tree)) :
    ofTree (.obj members) =
      obj (Members.ofList (members.map fun member => (member.1, ofTree member.2))) := by
  rw [ofTree, membersOfTrees_eq_map]

end Value

end DocQuery
