import DocQuery.Proofs.ByteOrder
import DocQuery.Proofs.LiteralPlaces
import DocQuery.Proofs.Reordering
import DocQuery.Proofs.RoundTrip
import DocQuery.Query.Matching

/-! Whatever a value is made of, lists of entries, a tree or a text, every object in it has its keys
in ascending order and the last entry of each. So nothing that is done with values can tell in which
order the entries came. -/

namespace DocQuery

namespace Members

/-- The keys of an object are those of its entries. -/
theorem mem_keys_ofList {α : Type} (entries : List (String × α)) (key : String) :
    key ∈ (ofList entries).map Prod.fst ↔ key ∈ entries.map Prod.fst := by
  have step (entries members : List (String × α)) :
      key ∈ (entries.foldl (fun members entry => insert entry.1 entry.2 members) members).map
          Prod.fst ↔
        key ∈ entries.map Prod.fst ∨ key ∈ members.map Prod.fst := by
    induction entries generalizing members with
    | nil => simp
    | cons entry entries ih =>
      rw [List.foldl_cons, ih, mem_keys_insert, List.map_cons, List.mem_cons]
      exact or_left_comm.trans or_assoc.symm
  rw [ofList, step]
  exact or_iff_left List.not_mem_nil

/-- What members are to the entries that they are made of. They are in order, by characters and by
bytes alike, and under each key that the entries have they hold what comes last there. -/
structure MadeOf {α : Type} (entries members : List (String × α)) : Prop where
  ascending : Ascending members
  ascending_bytes : members.Pairwise fun a b => a.1.toUTF8.data.toList < b.1.toUTF8.data.toList
  mem_keys_iff : ∀ key, key ∈ members.map Prod.fst ↔ key ∈ entries.map Prod.fst
  lookup_last : ∀ before key value after, entries = before ++ (key, value) :: after →
    (∀ entry ∈ after, entry.1 ≠ key) → members.lookup key = some value

theorem madeOf_ofList {α : Type} (entries : List (String × α)) :
    MadeOf entries (ofList entries) where
  ascending := ascending_ofList entries
  ascending_bytes := (ascending_ofList entries).imp fun hlt => (Text.lt_iff_bytes_lt _ _).mp hlt
  mem_keys_iff := mem_keys_ofList entries
  lookup_last := by
    rintro before key value after rfl hafter
    exact lookup_ofList_last value hafter

end Members

namespace Value

mutual

/-- A value in order is the one that its own members make. -/
theorem assembled_eq_self : (v : Value) → v.Canonical → v.assembled = v
  | null, _ | bool _, _ | int _, _ | float _, _ | str _, _ => rfl
  | arr items, h => congrArg arr (assembledItems_eq_self items h)
  | obj members, ⟨hascending, hmembers⟩ => by
    rw [assembled, assembledEntries_eq_self members hmembers, Members.ofList_eq_self hascending]

theorem assembledItems_eq_self : (items : List Value) → CanonicalItems items →
    assembledItems items = items
  | [], _ => rfl
  | item :: items, ⟨hitem, hitems⟩ => by
    rw [assembledItems, assembled_eq_self item hitem, assembledItems_eq_self items hitems]

theorem assembledEntries_eq_self : (members : List (String × Value)) → CanonicalMembers members →
    assembledEntries members = members
  | [], _ => rfl
  | (_, value) :: members, ⟨hvalue, hmembers⟩ => by
    rw [assembledEntries, assembled_eq_self value hvalue, assembledEntries_eq_self members hmembers]

end

end Value

theorem Json.ReorderedTexts.documentOfText_eq {text other : String}
    (h : ReorderedTexts text other) :
    Document.ofText text = Document.ofText other := by
  rw [Document.ofText, Document.ofText, h.ofText_eq]

/-- Reordered entries make the same document. -/
theorem Document.assembled_eq_of_reordered {entries others : List (String × Value)}
    (h : Reordered Value.arr Value.obj (.obj entries) (.obj others)) :
    assembled entries = assembled others :=
  Value.obj.inj (Value.assembled_eq_of_reordered h)

namespace Query

open Json (Literal ReorderedTexts)

/-- How objects are built. All objects in a value are what their entries make, at every depth,
whether these come from a list, from a tree or from a text. So entries in another order change
neither the answer of a query nor the reports nor how a value is shown, wherever in the query or the
document they stand. -/
structure CanonicalObjects : Prop where
  entries : ∀ entries : List (String × Value), Members.MadeOf entries (Members.ofList entries)
  entries_order : ∀ entries others : List (String × Value), Members.SameByKey entries others →
    Members.ofList entries = Members.ofList others
  assembled_canonical : ∀ v : Value, v.assembled.Canonical
  assembled_self : ∀ v : Value, v.Canonical → v.assembled = v
  assembled_arr : ∀ items, (Value.arr items).assembled = .arr (items.map Value.assembled)
  assembled_obj : ∀ entries, (Value.obj entries).assembled =
    .obj (Members.ofList (entries.map fun entry => (entry.1, entry.2.assembled)))
  ofTree_canonical : ∀ tree, (Value.ofTree tree).Canonical
  ofTree_arr : ∀ items, Value.ofTree (.arr items) = .arr (items.map Value.ofTree)
  ofTree_obj : ∀ members, Value.ofTree (.obj members) =
    .obj (Members.ofList (members.map fun member => (member.1, Value.ofTree member.2)))
  ofText_canonical : ∀ text v, Value.ofText text = .ok v → v.Canonical
  ofText_inside : ∀ text (place : Literal.Place) literal v,
    Literal.ofText? text = some (place.fill literal) → Value.ofText text = .ok v →
      place.Lasting → ∃ room x, literal.value? room = some x ∧ v.inside? place.steps = some x
  assembled_order : ∀ v w : Value, Reordered .arr .obj v w → v.assembled = w.assembled
  ofTree_order : ∀ tree other : Json.Tree, Reordered .arr .obj tree other →
    Value.ofTree tree = Value.ofTree other
  ofText_order : ∀ text other, ReorderedTexts text other →
    Value.ofText text = Value.ofText other ∧ Document.ofText text = Document.ofText other
  trace_assembled : ∀ (options : Options) (query other : Value)
    (document others : List (String × Value)),
    Reordered .arr .obj query other → Reordered .arr .obj (Value.obj document) (.obj others) →
      trace options query.assembled (Document.assembled document) =
        trace options other.assembled (Document.assembled others) ∧
      query.assembled.display = other.assembled.display
  trace_ofText : ∀ (options : Options) (query other document others : String),
    ReorderedTexts query other → ReorderedTexts document others →
      (do return trace options (← Value.ofText query) (← Document.ofText document)) =
        (do return trace options (← Value.ofText other) (← Document.ofText others)) ∧
      (Value.ofText query).map Value.display = (Value.ofText other).map Value.display

/-- Every object has its keys in strictly ascending order, with the value of the last entry under
each, and comes out the same from its entries in any order that keeps those under one key in theirs.
-/
theorem objects_canonical : CanonicalObjects where
  entries := Members.madeOf_ofList
  entries_order _ _ hsame := hsame.ofList_eq
  assembled_canonical := Value.canonical_assembled
  assembled_self := Value.assembled_eq_self
  assembled_arr := Value.assembled_arr
  assembled_obj := Value.assembled_obj
  ofTree_canonical := Value.canonical_ofTree
  ofTree_arr := Value.ofTree_arr
  ofTree_obj := Value.ofTree_obj
  ofText_canonical _ _ hread := (Value.fits_of_ofText hread).canonical
  ofText_inside := by
    intro text place literal v htext hread hlasting
    obtain ⟨room, x, hx, hinside⟩ :=
      place.inside?_of_value?_fill ((Value.ofText_eq_ok_iff htext).mp hread)
    exact ⟨room, x, hx, hinside hlasting⟩
  assembled_order _ _ := Value.assembled_eq_of_reordered
  ofTree_order _ _ := Value.ofTree_eq_of_reordered
  ofText_order _ _ h := ⟨h.ofText_eq, h.documentOfText_eq⟩
  trace_assembled := by
    intro options query other document others hquery hdocument
    rw [Value.assembled_eq_of_reordered hquery, Document.assembled_eq_of_reordered hdocument]
    exact ⟨rfl, rfl⟩
  trace_ofText := by
    intro options query other document others hquery hdocument
    rw [hquery.ofText_eq, hdocument.documentOfText_eq]
    exact ⟨rfl, rfl⟩

/-- Members of a query change places, the two under one key keeping theirs, and so do members two
levels down in a document. -/
theorem objects_canonical_two_levels_down :
    let query := "\x7b\"b\":\"y\",\"a\":[null],\"b\":\"x\"\x7d"
    let other := "\x7b\"b\":\"y\",\"b\":\"x\",\"a\":[null]\x7d"
    let document := "\x7b\"b\":\"x\",\"c\":[\x7b\"e\":true,\"d\":null\x7d]\x7d"
    let others := "\x7b\"c\":[\x7b\"d\":null,\"e\":true\x7d],\"b\":\"x\"\x7d"
    ReorderedTexts query other ∧ ReorderedTexts document others ∧
    Value.ofText query = .ok (.obj [("a", .arr [.null]), ("b", .str "x")]) ∧
    (do return trace {} (← Value.ofText query) (← Document.ofText document)) =
      (do return trace {} (← Value.ofText other) (← Document.ofText others)) := by
  intro query other document others
  have hqueryRead : Literal.ofText? query = some (.object
      [(some "b", .string (some "y")), (some "a", .array [.null]),
        (some "b", .string (some "x"))]) := by
    simp only [query]
    rfl
  have hotherRead : Literal.ofText? other = some (.object
      [(some "b", .string (some "y")), (some "b", .string (some "x")),
        (some "a", .array [.null])]) := by
    simp only [other]
    rfl
  have hquery : ReorderedTexts query other :=
    ⟨_, _, hqueryRead, hotherRead, .entries (.swap (by decide) [_] [])⟩
  have hdocumentRead : Literal.ofText? document = some (.object
      [(some "b", .string (some "x")),
        (some "c", .array [.object [(some "e", .bool true), (some "d", .null)]])]) := by
    simp only [document]
    rfl
  have hothersRead : Literal.ofText? others = some (.object
      [(some "c", .array [.object [(some "d", .null), (some "e", .bool true)]]),
        (some "b", .string (some "x"))]) := by
    simp only [others]
    rfl
  have hdocument : ReorderedTexts document others :=
    ⟨_, _, hdocumentRead, hothersRead, .trans
      (.member [_] (some "c") [] (.item [] [] (.entries (.swap (by decide) [] []))))
      (.entries (.swap (by decide) [] []))⟩
  have hsame := objects_canonical.trace_ofText
  have hvalue : Value.ofText query = .ok (.obj [("a", .arr [.null]), ("b", .str "x")]) :=
    (Value.ofText_eq_ok_iff hqueryRead).mpr rfl
  exact ⟨hquery, hdocument, hvalue, (hsame {} query other document others hquery hdocument).1⟩

end Query

end DocQuery
