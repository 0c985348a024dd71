import DocQuery.Value.Basic
/-!
Strict equality: same kind and same value, at every depth. No number equals a number of the other
kind, and doubles are compared as numbers, so NaN differs from itself and the two zeros are equal.
-/

namespace DocQuery.Value

mutual

def equals : Value → Value → Bool
  | null, null => true
  | bool a, bool b => a == b
  | int m, int n => m == n
  | float x, float y => x.equals y
  | str s, str t => s == t
  | arr xs, arr ys => equalItems xs ys
  | obj xs, obj ys => equalMembers xs ys
  | _, _ => false

def equalItems : List Value → List Value → Bool
  | [], [] => true
  | x :: xs, y :: ys => equals x y && equalItems xs ys
  | _, _ => false

def equalMembers : List (String × Value) → List (String × Value) → Bool
  | [], [] => true
  | (j, x) :: xs, (k, y) :: ys => j == k && equals x y && equalMembers xs ys
  | _, _ => false

end

end DocQuery.Value
