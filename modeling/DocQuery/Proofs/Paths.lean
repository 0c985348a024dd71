import DocQuery.Path
import DocQuery.Value.Chain

/-! A path through a path is a path: the first part leads to an object, and the second goes on from
there. So the paths are just the chains of keys without a separator, whichever character that is. -/

namespace DocQuery

namespace Path

/-- What stands below a value at a path. Only an object has anything there. -/
def findBelow (path : Path) : Value → Option Value
  | .obj members => path.find? members
  | _ => none

theorem follow_cons (value : Value) (key : String) (keys : List String) :
    follow value (key :: keys) = findBelow ⟨key, keys⟩ value := by
  cases value with
  | obj members => rfl
  | null | bool | int | float | str | arr => rfl

theorem follow_append (value : Value) (keys others : List String) :
    follow value (keys ++ others) = (follow value keys).bind (follow · others) := by
  induction keys generalizing value with
  | nil => rfl
  | cons key keys ih =>
    cases value with
    | obj members =>
      rw [List.cons_append, follow, follow]
      cases members.lookup key with
      | none => rfl
      | some next => exact ih next
    | null | bool | int | float | str | arr => rfl

/-- The keys of a path that goes on after a separator. -/
theorem ofString_append (separator : Char) (p q : String) :
    ofString separator (p ++ String.singleton separator ++ q) =
      ⟨(ofString separator p).first,
        (ofString separator p).rest ++
          (ofString separator q).first :: (ofString separator q).rest⟩ := by
  have hchars : (p ++ String.singleton separator ++ q).toList =
      p.toList ++ separator :: q.toList := by simp
  simp only [ofString, hchars, split_append, List.map_append, List.map_cons]

theorem find?_append (first next : Path) (document : Document) :
    find? ⟨first.first, first.rest ++ next.first :: next.rest⟩ document =
      (find? first document).bind next.findBelow := by
  unfold find?
  cases document.lookup first.first with
  | none => rfl
  | some value =>
    simp only [Option.bind_some, follow_append, follow_cons]

/-- Keys without the separator are the keys of the path that joins them. -/
theorem ofString_intercalate {separator : Char} (key : String) (keys : List String)
    (h : ∀ k ∈ key :: keys, separator ∉ k.toList) :
    ofString separator ((String.singleton separator).intercalate (key :: keys)) = ⟨key, keys⟩ := by
  induction keys generalizing key with
  | nil =>
    rw [String.intercalate_singleton]
    exact ofString_of_not_mem (h key List.mem_cons_self)
  | cons next keys ih =>
    have hkey := ofString_of_not_mem (h key List.mem_cons_self)
    have hrest := ih next fun k hk => h k (List.mem_cons_of_mem key hk)
    rw [String.intercalate_cons_cons, ofString_append, hkey, hrest]
    rfl

/-- Following keys reaches what the chain of them leads to. -/
theorem follow_eq_some_iff {value : Value} {keys : List String} {target : Value} :
    follow value keys = some target ↔ value.Reaches keys target := by
  constructor
  · intro h
    -- a key that is followed has an object before it, which is the next link of the chain
    induction keys generalizing value with
    | nil =>
      cases h
      exact .here target
    | cons key keys ih =>
      cases value with
      | obj members =>
        obtain ⟨next, hnext, htarget⟩ := Option.bind_eq_some_iff.mp h
        exact .member hnext (ih htarget)
      | null | bool | int | float | str | arr => cases h
  · intro h
    induction h with
    | here target => rfl
    | member hnext _ ih => exact Option.bind_eq_some_iff.mpr ⟨_, hnext, ih⟩

/-- Where a new separator does not occur yet, it can take the place of the old one. -/
theorem split_map {separator other : Char} {cs : List Char} (h : other ∉ cs) :
    split other (cs.map fun c => if c = separator then other else c) = split separator cs := by
  induction cs with
  | nil => rfl
  | cons c cs ih =>
    obtain ⟨hc, hcs⟩ := not_or.mp (mt List.mem_cons.mpr h)
    have hrest := ih hcs
    by_cases hsep : c = separator
    · simp only [List.map_cons, split, hrest, if_pos hsep, if_true]
    · simp only [List.map_cons, split, hrest, if_neg hsep, if_neg (Ne.symm hc)]

theorem ofString_map {separator other : Char} {p : String} (h : other ∉ p.toList) :
    ofString other (p.map fun c => if c = separator then other else c) = ofString separator p := by
  simp only [ofString, String.toList_map, split_map h]

end Path

/-- A path goes on after a separator from the object that its first part leads to, and a key without
a separator is looked up as it stands. So a chain of such keys leads where their joined path does,
and the separator is a matter of spelling. -/
theorem Document.resolve_compositional (document : Document) (separator : Char) :
    (∀ p q : String, document.resolve separator (p ++ String.singleton separator ++ q) =
      match document.resolve separator p with
      | some (.obj members) => Document.resolve separator q members
      | _ => none) ∧
    (∀ key : String, separator ∉ key.toList →
      document.resolve separator key = document.lookup key) ∧
    (∀ (key : String) (keys : List String), (∀ k ∈ key :: keys, separator ∉ k.toList) →
      ∀ target : Value,
        document.resolve separator ((String.singleton separator).intercalate (key :: keys)) =
          some target ↔ (Value.obj document).Reaches (key :: keys) target) ∧
    (∀ (other : Char) (p : String), other ∉ p.toList →
      document.resolve other (p.map fun c => if c = separator then other else c) =
        document.resolve separator p) := by
  refine ⟨?_, ?_, ?_, ?_⟩
  · intro p q
    have hfind := Path.find?_append (.ofString separator p) (.ofString separator q) document
    unfold resolve
    rw [Path.ofString_append, hfind]
    cases (Path.ofString separator p).find? document with
    | none => rfl
    | some value =>
      cases value with
      | obj members => rfl
      | null | bool | int | float | str | arr => rfl
  · intro key hkey
    exact resolve_of_not_mem hkey document
  · intro key keys hkeys target
    have hchain : Path.follow (.obj document) (key :: keys) = some target ↔
        (Value.obj document).Reaches (key :: keys) target := Path.follow_eq_some_iff
    unfold resolve
    rw [Path.ofString_intercalate key keys hkeys]
    exact hchain
  · intro other p hother
    unfold resolve
    rw [Path.ofString_map hother]

/-- An empty key is a key like any other, and a null at the end of a chain has been found. -/
theorem Document.resolve_compositional_empty_key :
    ('.' ∉ "a".toList ∧
      Document.resolve '.' "a" [("a", .obj [("", .obj [("b", .null)])])] =
        List.lookup "a" [("a", .obj [("", .obj [("b", .null)])])]) ∧
    ((∀ k ∈ ["a", "", "b"], '.' ∉ k.toList) ∧
      Document.resolve '.' ((String.singleton '.').intercalate ["a", "", "b"])
        [("a", .obj [("", .obj [("b", .null)])])] = some .null) ∧
    ('/' ∉ "a..b".toList ∧
      Document.resolve '/' ("a..b".map fun c => if c = '.' then '/' else c)
          [("a", .obj [("", .obj [("b", .null)])])] =
        Document.resolve '.' "a..b" [("a", .obj [("", .obj [("b", .null)])])]) := by
  have hkey : '.' ∉ "a".toList := by decide
  have hkeys : ∀ k ∈ ["a", "", "b"], '.' ∉ k.toList := by decide
  have hother : '/' ∉ "a..b".toList := by decide
  obtain ⟨-, hsingle, hchain, hspelling⟩ :=
    resolve_compositional [("a", .obj [("", .obj [("b", .null)])])] '.'
  have hreaches : (Value.obj [("a", .obj [("", .obj [("b", .null)])])]).Reaches ["a", "", "b"]
      .null := .member rfl (.member rfl (.member rfl (.here .null)))
  exact ⟨⟨hkey, hsingle "a" hkey⟩, ⟨hkeys, (hchain "a" ["", "b"] hkeys .null).mpr hreaches⟩,
    hother, hspelling '/' "a..b" hother⟩

end DocQuery
