import DocQuery.Json.Reordered
import DocQuery.Json.Value
import DocQuery.Value.Assembled

/-! An object does not depend on the order in which its entries are listed, as long as those under one
key keep theirs. What is true of one object is true of objects inside objects, so entries in another
order at any depth make the same value, and a text with them is read as the same value. -/

namespace DocQuery

namespace Members

/-- Only the entries under a key matter to what is found there. -/
theorem lookup_filter {α : Type} (entries : List (String × α)) (key : String) :
    (entries.filter fun entry => entry.1 = key).lookup key = entries.lookup key := by
  induction entries with
  | nil => rfl
  | cons entry entries ih =>
    obtain ⟨k, v⟩ := entry
    by_cases h : k = key
    · rw [List.filter_cons_of_pos (by simpa using h), lookup_cons, lookup_cons, ih]
    · rw [List.filter_cons_of_neg (by simpa using h), lookup_cons, if_neg (Ne.symm h), ih]

namespace SameByKey

variable {κ α β : Type} [DecidableEq κ] {entries others : List (κ × α)}

theorem symm (h : SameByKey entries others) : SameByKey others entries := fun key => (h key).symm

theorem mem (h : SameByKey entries others) {entry : κ × α} (hentry : entry ∈ others) :
    entry ∈ entries := by
  have hfiltered : entry ∈ others.filter fun other => other.1 = entry.1 :=
    List.mem_filter.mpr ⟨hentry, decide_eq_true rfl⟩
  rw [← h entry.1] at hfiltered
  exact (List.mem_filter.mp hfiltered).1

/-- Neighbours under different keys may change places. -/
theorem swap {first second : κ × α} (h : first.1 ≠ second.1) (before after : List (κ × α)) :
    SameByKey (before ++ first :: second :: after) (before ++ second :: first :: after) := by
  intro key
  rw [List.filter_append, List.filter_append]
  congr 1
  by_cases hkey : first.1 = key
  · -- then the second is not among the entries under the key
    have hother : second.1 ≠ key := fun hsecond => h (hkey.trans hsecond.symm)
    simp [hkey, hother]
  · simp [List.filter_cons, hkey]

/-- To change the values and not the keys keeps the order under each key. -/
theorem map (h : SameByKey entries others) (f : α → β) :
    SameByKey (entries.map fun entry => (entry.1, f entry.2))
      (others.map fun entry => (entry.1, f entry.2)) := by
  intro key
  have hkeep (entries : List (κ × α)) :
      ((entries.map fun entry => (entry.1, f entry.2)).filter fun entry => entry.1 = key) =
        (entries.filter fun entry => entry.1 = key).map fun entry => (entry.1, f entry.2) :=
    List.filter_map
  rw [hkeep, hkeep, h key]

/-- Entries in such an order make the same object: under each key the last one is the same. -/
theorem ofList_eq {entries others : List (String × α)} (h : SameByKey entries others) :
    ofList entries = ofList others := by
  apply eq_of_lookup_eq (ascending_ofList entries) (ascending_ofList others)
  intro key
  calc
    (ofList entries).lookup key = entries.reverse.lookup key := lookup_ofList entries key
    _ = (entries.reverse.filter fun entry => entry.1 = key).lookup key :=
      (lookup_filter entries.reverse key).symm
    _ = (others.reverse.filter fun entry => entry.1 = key).lookup key := by
      rw [List.filter_reverse, List.filter_reverse, h key]
    _ = others.reverse.lookup key := lookup_filter others.reverse key
    _ = (ofList others).lookup key := (lookup_ofList others key).symm

end SameByKey

end Members

namespace Reordered

variable {κ α β : Type} [DecidableEq κ] {array : List α → α} {object : List (κ × α) → α}

/-- What sees no difference between trees in one place, nor between orders in one object, sees none
between reordered trees. -/
theorem congr (f : α → β)
    (hitem : ∀ item other before after, f item = f other →
      f (array (before ++ item :: after)) = f (array (before ++ other :: after)))
    (hmember : ∀ member other before key after, f member = f other →
      f (object (before ++ (key, member) :: after)) = f (object (before ++ (key, other) :: after)))
    (hentries : ∀ entries others, Members.SameByKey entries others →
      f (object entries) = f (object others))
    {tree other : α} (h : Reordered array object tree other) : f tree = f other := by
  induction h with
  | refl tree => rfl
  | trans _ _ ih ih' => exact ih.trans ih'
  | entries hsame => exact hentries _ _ hsame
  | item before after _ ih => exact hitem _ _ before after ih
  | member before key after _ ih => exact hmember _ _ before key after ih

end Reordered

namespace Reordered

variable {α : Type} {array : List α → α} {object : List (String × α) → α}

/-- Trees are built into the same value if arrays are built item by item and objects from the entries
that they list. -/
theorem build_eq (build : α → Value)
    (harray : ∀ items, build (array items) = .arr (items.map build))
    (hobject : ∀ entries, build (object entries) =
      .obj (Members.ofList (entries.map fun entry => (entry.1, build entry.2))))
    {tree other : α} (h : Reordered array object tree other) : build tree = build other := by
  apply h.congr build
  · intro item other before after hsame
    rw [harray, harray, List.map_append, List.map_append, List.map_cons, List.map_cons, hsame]
  · intro member other before key after hsame
    rw [hobject, hobject, List.map_append, List.map_append, List.map_cons, List.map_cons, hsame]
  · intro entries others hsame
    rw [hobject, hobject, (hsame.map build).ofList_eq]

end Reordered

namespace Value

theorem assembledItems_eq_map (items : List Value) :
    assembledItems items = items.map assembled := by
  induction items with
  | nil => rfl
  | cons item items ih => rw [assembledItems, ih, List.map_cons]

theorem assembledEntries_eq_map (entries : List (String × Value)) :
    assembledEntries entries = entries.map fun entry => (entry.1, entry.2.assembled) := by
  induction entries with
  | nil => rfl
  | cons entry entries ih => rw [assembledEntries, ih, List.map_cons]

theorem assembled_arr (items : List Value) : (arr items).assembled = arr (items.map assembled) := by
  rw [assembled, assembledItems_eq_map]

theorem assembled_obj (entries : List (String × Value)) :
    (obj entries).assembled =
      obj (Members.ofList (entries.map fun entry => (entry.1, entry.2.assembled))) := by
  rw [assembled, assembledEntries_eq_map]

/-- Reordered entries are assembled to the same value. -/
theorem assembled_eq_of_reordered {v w : Value} (h : Reordered arr obj v w) :
    v.assembled = w.assembled :=
  h.build_eq assembled assembled_arr assembled_obj

theorem ofTree_eq_of_reordered {tree other : Json.Tree}
    (h : Reordered Json.Tree.arr Json.Tree.obj tree other) : ofTree tree = ofTree other :=
  h.build_eq ofTree ofTree_arr ofTree_obj

end Value

namespace Json.Literal

open Members (SameByKey)

theorem itemValues?_congr {room : Nat} {item other : Literal}
    (h : item.value? room = other.value? room) (before after : List Literal) :
    itemValues? room (before ++ item :: after) = itemValues? room (before ++ other :: after) := by
  induction before with
  | nil => rw [List.nil_append, List.nil_append, itemValues?, itemValues?, h]
  | cons first before ih => rw [List.cons_append, List.cons_append, itemValues?, itemValues?, ih]

theorem memberValues?_congr {room : Nat} {member other : Literal}
    (h : member.value? room = other.value? room) (before : List (Option String × Literal))
    (key : Option String) (after : List (Option String × Literal)) :
    memberValues? room (before ++ (key, member) :: after) =
      memberValues? room (before ++ (key, other) :: after) := by
  induction before with
  | nil => rw [List.nil_append, List.nil_append, memberValues?, memberValues?, h]
  | cons first before ih =>
    obtain ⟨firstKey, first⟩ := first
    rw [List.cons_append, List.cons_append, memberValues?, memberValues?, ih]

/-- Members are read if each of them has a key and a value. -/
theorem exists_memberValues?_iff {room : Nat} {members : List (Option String × Literal)} :
    (∃ entries, memberValues? room members = some entries) ↔
      ∀ member ∈ members, ∃ key v, member.1 = some key ∧ member.2.value? room = some v := by
  induction members with
  | nil => exact iff_of_true ⟨[], rfl⟩ (List.forall_mem_nil _)
  | cons member members ih =>
    rw [List.forall_mem_cons, ← ih]
    constructor
    · rintro ⟨_, hentries⟩
      obtain ⟨key, v, lasts, hkey, hv, hlasts, -⟩ := memberValues?_cons_eq_some.mp hentries
      exact ⟨⟨key, v, hkey, hv⟩, lasts, hlasts⟩
    · rintro ⟨⟨key, v, hkey, hv⟩, lasts, hlasts⟩
      exact ⟨(key, v) :: lasts,
        memberValues?_cons_eq_some.mpr ⟨key, v, lasts, hkey, hv, hlasts, rfl⟩⟩

/-- The members under a key are read as the entries under it. -/
theorem memberValues?_filter {room : Nat} {members : List (Option String × Literal)}
    {entries : List (String × Value)} (h : memberValues? room members = some entries)
    (key : String) :
    memberValues? room (members.filter fun member => member.1 = some key) =
      some (entries.filter fun entry => entry.1 = key) := by
  induction members generalizing entries with
  | nil =>
    cases h
    rfl
  | cons member members ih =>
    obtain ⟨memberKey, member⟩ := member
    obtain ⟨k, v, lasts, rfl, hv, hlasts, rfl⟩ := memberValues?_cons_eq_some.mp h
    have hrest := ih hlasts
    by_cases hkey : k = key
    · rw [List.filter_cons_of_pos (by simpa using hkey), List.filter_cons_of_pos (by simpa using hkey)]
      exact memberValues?_cons_eq_some.mpr ⟨k, v, _, rfl, hv, hrest, rfl⟩
    · rw [List.filter_cons_of_neg (by simpa using hkey), List.filter_cons_of_neg (by simpa using hkey)]
      exact hrest

/-- Reordered members are read as reordered entries. -/
theorem memberValues?_of_sameByKey {room : Nat} {members others : List (Option String × Literal)}
    (h : SameByKey members others) {entries : List (String × Value)}
    (hentries : memberValues? room members = some entries) :
    ∃ reordered, memberValues? room others = some reordered ∧ SameByKey entries reordered := by
  have hall := exists_memberValues?_iff.mp ⟨entries, hentries⟩
  obtain ⟨reordered, hreordered⟩ := exists_memberValues?_iff.mpr fun other hother =>
    hall other (h.mem hother)
  refine ⟨reordered, hreordered, fun key => ?_⟩
  apply Option.some.inj
  rw [← memberValues?_filter hentries key, ← memberValues?_filter hreordered key, h (some key)]

theorem ofList_memberValues?_congr {members others : List (Option String × Literal)}
    (h : SameByKey members others) (room : Nat) :
    (memberValues? room members).map Members.ofList =
      (memberValues? room others).map Members.ofList := by
  cases hmembers : memberValues? room members with
  | some entries =>
    obtain ⟨reordered, hothers, hsame⟩ := memberValues?_of_sameByKey h hmembers
    rw [hothers, Option.map_some, Option.map_some, hsame.ofList_eq]
  | none =>
    cases hothers : memberValues? room others with
    | none => rfl
    | some entries =>
      -- what fails in one order fails in the other
      obtain ⟨_, hread, -⟩ := memberValues?_of_sameByKey h.symm hothers
      rw [hmembers] at hread
      cases hread

/-- A reordered literal has the same value, or none either, however deep containers may nest. -/
theorem value?_eq_of_reordered {literal other : Literal} (h : Reordered array object literal other)
    (room : Nat) : literal.value? room = other.value? room := by
  have hall : (fun room => literal.value? room) = fun room => other.value? room := by
    apply h.congr fun (literal : Literal) room => literal.value? room
    · intro item other before after hsame
      funext room
      cases room with
      | zero => rfl
      | succ room => rw [value?, value?, itemValues?_congr (congrFun hsame room) before after]
    · intro member other before key after hsame
      funext room
      cases room with
      | zero => rfl
      | succ room => rw [value?, value?, memberValues?_congr (congrFun hsame room) before key after]
    · intro members others hsame
      funext room
      cases room with
      | zero => rfl
      | succ room =>
        have hbuilt := congrArg (Option.map Value.obj) (ofList_memberValues?_congr hsame room)
        rw [Option.map_map, Option.map_map] at hbuilt
        rw [value?, value?]
        exact hbuilt
  exact congrFun hall room

end Json.Literal

/-- So a text is read as the same value, or is malformed as well. -/
theorem Json.ReorderedTexts.ofText_eq {text other : String} (h : ReorderedTexts text other) :
    Value.ofText text = Value.ofText other := by
  obtain ⟨literal, reordered, htext, hother, hreordered⟩ := h
  rw [Value.ofText_of_literal htext, Value.ofText_of_literal hother,
    Literal.value?_eq_of_reordered hreordered]

end DocQuery
