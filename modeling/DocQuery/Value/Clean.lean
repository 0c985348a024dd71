import DocQuery.Value.Basic
import DocQuery.Value.Members
/-!
What is left of a value when it is written down: NaN and the infinities become null.
-/

namespace DocQuery.Value

mutual

/-- The value with every double that is not finite replaced by null. -/
def clean : Value → Value
  | float x => if x.isFinite then float x else null
  | arr items => arr (cleanItems items)
  | obj members => obj (cleanMembers members)
  | null => null
  | bool b => bool b
  | int n => int n
  | str s => str s

def cleanItems : List Value → List Value
  | [] => []
  | item :: items => item.clean :: cleanItems items

def cleanMembers : List (String × Value) → List (String × Value)
  | [] => []
  | (key, value) :: members => (key, value.clean) :: cleanMembers members

end

theorem cleanMembers_eq_map (members : List (String × Value)) :
    cleanMembers members = members.map fun member => (member.1, member.2.clean) := by
  induction members with
  | nil => rfl
  | cons member members ih => rw [cleanMembers, ih, List.map_cons]

/-- The keys stay as they are, and in order. -/
theorem ascending_cleanMembers {members : List (String × Value)} (h : Members.Ascending members) :
    Members.Ascending (cleanMembers members) := by
  rw [cleanMembers_eq_map]
  exact List.pairwise_map.mpr h

end DocQuery.Value
