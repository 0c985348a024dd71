import DocQuery.Value.Basic
/-!
Chains of keys that lead from a value to one inside it, an object at every step, and steps that may
lead through arrays as well.
-/

namespace DocQuery.Value

/-- The keys, one after the other, lead from a value to the target. -/
inductive Reaches : Value → List String → Value → Prop where
  | here (target : Value) : Reaches target [] target
  | member {members : List (String × Value)} {key : String} {value : Value} {keys : List String}
      {target : Value} : members.lookup key = some value → Reaches value keys target →
    Reaches (.obj members) (key :: keys) target

/-- One step into a value: to an item by its index, or to a member by its key. -/
inductive Step where
  | item (index : Nat)
  | member (key : String)
  deriving DecidableEq, Repr

/-- What stands inside a value at the end of the steps. -/
def inside? : Value → List Step → Option Value
  | value, [] => some value
  | arr items, .item index :: steps => items[index]?.bind fun item => inside? item steps
  | obj members, .member key :: steps => (members.lookup key).bind fun value => inside? value steps
  | _, _ :: _ => none

end DocQuery.Value
