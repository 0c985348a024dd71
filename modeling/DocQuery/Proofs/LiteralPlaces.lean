import DocQuery.Json.Place
import DocQuery.Json.Value

/-! Arrays are read item by item and objects member by member, so what stands at a place in a text is
read by itself, and found again in the same place of the value. -/

namespace DocQuery

namespace Json.Literal

/-- An array is read item by item. -/
theorem itemValues?_append_eq_some {room : Nat} {before after : List Literal} {literal : Literal}
    {values : List Value} :
    itemValues? room (before ++ literal :: after) = some values ↔
      ∃ firsts v lasts, itemValues? room before = some firsts ∧ literal.value? room = some v ∧
        itemValues? room after = some lasts ∧ firsts ++ v :: lasts = values := by
  induction before generalizing values with
  | nil => simp [itemValues?, Option.bind_eq_some_iff]
  | cons item before ih =>
    simp only [List.cons_append, itemValues?_cons_eq_some, ih]
    constructor
    · rintro ⟨first, _, hfirst, ⟨firsts, v, lasts, hbefore, hv, hafter, rfl⟩, rfl⟩
      exact ⟨first :: firsts, v, lasts, ⟨first, firsts, hfirst, hbefore, rfl⟩, hv, hafter, rfl⟩
    · rintro ⟨_, v, lasts, ⟨first, firsts, hfirst, hbefore, rfl⟩, hv, hafter, rfl⟩
      exact ⟨first, _, hfirst, ⟨firsts, v, lasts, hbefore, hv, hafter, rfl⟩, rfl⟩

/-- An object is read member by member. -/
theorem memberValues?_append_eq_some {room : Nat} {before after : List (Option String × Literal)}
    {key : String} {literal : Literal} {entries : List (String × Value)} :
    memberValues? room (before ++ (some key, literal) :: after) = some entries ↔
      ∃ firsts v lasts, memberValues? room before = some firsts ∧ literal.value? room = some v ∧
        memberValues? room after = some lasts ∧ firsts ++ (key, v) :: lasts = entries := by
  induction before generalizing entries with
  | nil => simp [memberValues?, Option.bind_eq_some_iff]
  | cons member before ih =>
    obtain ⟨memberKey, member⟩ := member
    simp only [List.cons_append, memberValues?_cons_eq_some, ih]
    constructor
    · rintro ⟨k, first, _, hkey, hfirst, ⟨firsts, v, lasts, hbefore, hv, hafter, rfl⟩, rfl⟩
      exact ⟨(k, first) :: firsts, v, lasts, ⟨k, first, firsts, hkey, hfirst, hbefore, rfl⟩, hv,
        hafter, rfl⟩
    · rintro ⟨_, v, lasts, ⟨k, first, firsts, hkey, hfirst, hbefore, rfl⟩, hv, hafter, rfl⟩
      exact ⟨k, first, _, hkey, hfirst, ⟨firsts, v, lasts, hbefore, hv, hafter, rfl⟩, rfl⟩

theorem length_of_itemValues? {room : Nat} {items : List Literal} {values : List Value}
    (h : itemValues? room items = some values) : values.length = items.length := by
  induction items generalizing values with
  | nil =>
    cases h
    rfl
  | cons item items ih =>
    obtain ⟨v, lasts, -, hlasts, rfl⟩ := itemValues?_cons_eq_some.mp h
    rw [List.length_cons, List.length_cons, ih hlasts]

theorem keys_of_memberValues? {room : Nat} {members : List (Option String × Literal)}
    {entries : List (String × Value)} (h : memberValues? room members = some entries) :
    members.map Prod.fst = entries.map fun entry => some entry.1 := by
  induction members generalizing entries with
  | nil =>
    cases h
    rfl
  | cons member members ih =>
    obtain ⟨key, member⟩ := member
    obtain ⟨k, v, lasts, rfl, -, hlasts, rfl⟩ := memberValues?_cons_eq_some.mp h
    rw [List.map_cons, List.map_cons, ih hlasts]

namespace Place

/-- What stands in a place is read, and found in the value at the end of the steps that lead there. -/
theorem inside?_of_value?_fill {literal : Literal} (place : Place) {room : Nat} {v : Value}
    (h : (place.fill literal).value? room = some v) :
    ∃ below x, literal.value? below = some x ∧
      (place.Lasting → v.inside? place.steps = some x) := by
  induction place generalizing room v with
  | whole => exact ⟨room, v, h, fun _ => rfl⟩
  | item before inner after ih =>
    cases room with
    | zero => cases h
    | succ room =>
      obtain ⟨values, hvalues, rfl⟩ := Option.map_eq_some_iff.mp h
      obtain ⟨firsts, v, lasts, hfirsts, hv, -, rfl⟩ := itemValues?_append_eq_some.mp hvalues
      obtain ⟨below, x, hx, hinside⟩ := ih hv
      refine ⟨below, x, hx, fun hlasting => ?_⟩
      rw [steps, ← length_of_itemValues? hfirsts, Value.inside?, List.getElem?_append_right
        (Nat.le_refl _), Nat.sub_self]
      exact hinside hlasting
  | member before key inner after ih =>
    cases room with
    | zero => cases h
    | succ room =>
      obtain ⟨entries, hentries, rfl⟩ := Option.map_eq_some_iff.mp h
      obtain ⟨firsts, v, lasts, -, hv, hlasts, rfl⟩ := memberValues?_append_eq_some.mp hentries
      obtain ⟨below, x, hx, hinside⟩ := ih hv
      refine ⟨below, x, hx, fun ⟨hkey, hlasting⟩ => ?_⟩
      -- of the members under the key this one is the last
      have hlast : ∀ entry ∈ lasts, entry.1 ≠ key := by
        rintro entry hentry rfl
        rw [keys_of_memberValues? hlasts] at hkey
        exact hkey (List.mem_map.mpr ⟨entry, hentry, rfl⟩)
      have hlookup : (Members.ofList (firsts ++ (key, v) :: lasts)).lookup key = some v :=
        Members.lookup_ofList_last v hlast
      rw [steps, Value.inside?, hlookup]
      exact hinside hlasting

/-- What can be read anywhere can stand wherever something is read. -/
theorem exists_value?_fill {literal other : Literal}
    (hother : ∀ room, ∃ x, other.value? room = some x) (place : Place) {room : Nat} {v : Value}
    (h : (place.fill literal).value? room = some v) :
    ∃ v, (place.fill other).value? room = some v := by
  induction place generalizing room v with
  | whole => exact hother room
  | item before inner after ih =>
    cases room with
    | zero => cases h
    | succ room =>
      obtain ⟨values, hvalues, rfl⟩ := Option.map_eq_some_iff.mp h
      obtain ⟨firsts, v, lasts, hfirsts, hv, hlasts, rfl⟩ := itemValues?_append_eq_some.mp hvalues
      obtain ⟨x, hx⟩ := ih hv
      exact ⟨_, congrArg (Option.map Value.arr)
        (itemValues?_append_eq_some.mpr ⟨firsts, x, lasts, hfirsts, hx, hlasts, rfl⟩)⟩
  | member before key inner after ih =>
    cases room with
    | zero => cases h
    | succ room =>
      obtain ⟨entries, hentries, rfl⟩ := Option.map_eq_some_iff.mp h
      obtain ⟨firsts, v, lasts, hfirsts, hv, hlasts, rfl⟩ := memberValues?_append_eq_some.mp hentries
      obtain ⟨x, hx⟩ := ih hv
      exact ⟨_, congrArg (Option.map fun members => Value.obj (Members.ofList members))
        (memberValues?_append_eq_some.mpr ⟨firsts, x, lasts, hfirsts, hx, hlasts, rfl⟩)⟩

end Place

end Json.Literal

end DocQuery
