import DocQuery.Value.Basic
/-!
Field paths: keys between separators. A path leads through nested objects, one key at a level.
-/

namespace DocQuery

/-- The keys of a path; there is always a first one, which may be empty. -/
structure Path where
  first : String
  rest : List String
  deriving DecidableEq, Repr

namespace Path

/-- The first key of a written path, and the keys after it. -/
def split (separator : Char) : List Char → List Char × List (List Char)
  | [] => ([], [])
  | c :: cs =>
    let (first, rest) := split separator cs
    if c = separator then ([], first :: rest) else (c :: first, rest)

/-- The keys on either side of a separator are those of the two parts. -/
theorem split_append (separator : Char) (p q : List Char) :
    split separator (p ++ separator :: q) =
      ((split separator p).1,
        (split separator p).2 ++ (split separator q).1 :: (split separator q).2) := by
  induction p with
  | nil => simp [split]
  | cons c p ih => by_cases h : c = separator <;> simp [split, ih, h]

/-- Without a separator the whole is one key. -/
theorem split_of_not_mem {separator : Char} {p : List Char} (h : separator ∉ p) :
    split separator p = (p, []) := by
  induction p with
  | nil => rfl
  | cons c p ih =>
    obtain ⟨hc, hp⟩ := not_or.mp (mt List.mem_cons.mpr h)
    simp [split, ih hp, Ne.symm hc]

def ofString (separator : Char) (s : String) : Path :=
  let (first, rest) := split separator s.toList
  ⟨String.ofList first, rest.map String.ofList⟩

/-- A path without a separator is one key. -/
theorem ofString_of_not_mem {separator : Char} {s : String} (h : separator ∉ s.toList) :
    ofString separator s = ⟨s, []⟩ := by
  simp only [ofString, split_of_not_mem h, String.ofList_toList, List.map_nil]

/-- Follows keys down from a value. Only objects have anything below them. -/
def follow : Value → List String → Option Value
  | value, [] => some value
  | .obj members, key :: keys => (members.lookup key).bind fun value => follow value keys
  | _, _ :: _ => none

def find? (path : Path) (document : Document) : Option Value :=
  (document.lookup path.first).bind fun value => follow value path.rest

end Path

/-- What stands at a written path in a document. -/
def Document.resolve (separator : Char) (path : String) (document : Document) : Option Value :=
  (Path.ofString separator path).find? document

/-- A key without a separator is looked up as it stands. -/
theorem Document.resolve_of_not_mem {separator : Char} {key : String}
    (h : separator ∉ key.toList) (document : Document) :
    document.resolve separator key = document.lookup key := by
  unfold resolve
  rw [Path.ofString_of_not_mem h]
  cases hkey : document.lookup key with
  | none => simp only [Path.find?, hkey, Option.bind_none]
  | some value => simp only [Path.find?, hkey, Option.bind_some, Path.follow]

end DocQuery
