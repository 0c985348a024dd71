import DocQuery.Json.Tree
import DocQuery.Proofs.Zeros
import DocQuery.Value.Canonical
import DocQuery.Value.Clean
import DocQuery.Value.Display
import DocQuery.Value.Doubles

/-! What the JSON data model has no place for is lost on the way into it, and nothing else: the way
back gives the value with null in place of the doubles that are not finite. The text of a value does
not show the difference, but equality does. -/

namespace DocQuery.Value

theorem memberTrees_eq_map (members : List (String × Value)) :
    memberTrees members = members.map fun member => (member.1, member.2.toTree) := by
  induction members with
  | nil => rfl
  | cons member members ih => rw [memberTrees, ih, List.map_cons]

theorem ascending_memberTrees {members : List (String × Value)} (h : Members.Ascending members) :
    Members.Ascending (memberTrees members) := by
  rw [memberTrees_eq_map]
  exact List.pairwise_map.mpr h

mutual

/-- The way into the data model and back cleans a value. -/
theorem ofTree_toTree : (v : Value) → v.Canonical → ofTree v.toTree = v.clean
  | null, _ | bool _, _ | str _, _ => rfl
  | int n, _ => ofInteger_ofInt64 n
  | float x, _ => by
    rw [toTree, clean]
    split
    · rfl
    · rfl
  | arr items, hcanonical => by
    have hitems := itemsOfTrees_itemTrees items hcanonical
    rw [toTree, ofTree, hitems, clean]
  | obj members, hcanonical => by
    have hmembers := membersOfTrees_memberTrees members hcanonical.2
    -- the keys are in order all the way, so building the object again moves nothing
    have hthere : Members.ofList (memberTrees members) = memberTrees members :=
      Members.ofList_eq_self (ascending_memberTrees hcanonical.1)
    have hback : Members.ofList (cleanMembers members) = cleanMembers members :=
      Members.ofList_eq_self (ascending_cleanMembers hcanonical.1)
    rw [toTree, ofTree, hthere, hmembers, hback, clean]

theorem itemsOfTrees_itemTrees : (items : List Value) → CanonicalItems items →
    itemsOfTrees (itemTrees items) = cleanItems items
  | [], _ => rfl
  | item :: items, hcanonical => by
    have hitem := ofTree_toTree item hcanonical.1
    have hitems := itemsOfTrees_itemTrees items hcanonical.2
    rw [itemTrees, itemsOfTrees, hitem, hitems, cleanItems]

theorem membersOfTrees_memberTrees : (members : List (String × Value)) →
    CanonicalMembers members → membersOfTrees (memberTrees members) = cleanMembers members
  | [], _ => rfl
  | (key, value) :: members, hcanonical => by
    have hvalue := ofTree_toTree value hcanonical.1
    have hmembers := membersOfTrees_memberTrees members hcanonical.2
    rw [memberTrees, membersOfTrees, hvalue, hmembers, cleanMembers]

end

mutual

theorem canonical_clean : (v : Value) → v.Canonical → v.clean.Canonical
  | null, _ | bool _, _ | int _, _ | str _, _ => trivial
  | float x, _ => by
    rw [clean]
    split <;> trivial
  | arr items, hcanonical => canonical_cleanItems items hcanonical
  | obj members, hcanonical =>
    ⟨ascending_cleanMembers hcanonical.1, canonical_cleanMembers members hcanonical.2⟩

theorem canonical_cleanItems : (items : List Value) → CanonicalItems items →
    CanonicalItems (cleanItems items)
  | [], _ => trivial
  | item :: items, hcanonical =>
    ⟨canonical_clean item hcanonical.1, canonical_cleanItems items hcanonical.2⟩

theorem canonical_cleanMembers : (members : List (String × Value)) →
    CanonicalMembers members → CanonicalMembers (cleanMembers members)
  | [], _ => trivial
  | (_, value) :: members, hcanonical =>
    ⟨canonical_clean value hcanonical.1, canonical_cleanMembers members hcanonical.2⟩

end

mutual

/-- Cleaning leaves nothing to be cleaned. -/
theorem clean_clean : (v : Value) → v.clean.clean = v.clean
  | null | bool _ | int _ | str _ => rfl
  | float x => by
    rw [clean]
    split
    · rename_i hfinite
      exact if_pos hfinite
    · rfl
  | arr items => by rw [clean, clean, cleanItems_cleanItems items]
  | obj members => by rw [clean, clean, cleanMembers_cleanMembers members]

theorem cleanItems_cleanItems : (items : List Value) →
    cleanItems (cleanItems items) = cleanItems items
  | [] => rfl
  | item :: items => by rw [cleanItems, cleanItems, clean_clean item, cleanItems_cleanItems items]

theorem cleanMembers_cleanMembers : (members : List (String × Value)) →
    cleanMembers (cleanMembers members) = cleanMembers members
  | [] => rfl
  | (_, value) :: members => by
    rw [cleanMembers, cleanMembers, clean_clean value, cleanMembers_cleanMembers members]

end

mutual

/-- A double that is not finite is shown as null already. -/
theorem chars_clean : (v : Value) → v.clean.chars = v.chars
  | null | bool _ | int _ | str _ => rfl
  | float (.finite _ _) | float (.infinite _) | float .nan => rfl
  | arr items => by rw [clean, chars, chars, itemsChars_cleanItems items]
  | obj members => by rw [clean, chars, chars, membersChars_cleanMembers members]

theorem itemsChars_cleanItems : (items : List Value) →
    itemsChars (cleanItems items) = itemsChars items
  | [] => rfl
  | [item] => chars_clean item
  | item :: next :: items => by
    have hitem := chars_clean item
    have hitems := itemsChars_cleanItems (next :: items)
    calc
      itemsChars (cleanItems (item :: next :: items)) =
          item.clean.chars ++ ',' :: itemsChars (cleanItems (next :: items)) := rfl
      _ = item.chars ++ ',' :: itemsChars (next :: items) := by rw [hitem, hitems]

theorem membersChars_cleanMembers : (members : List (String × Value)) →
    membersChars (cleanMembers members) = membersChars members
  | [] => rfl
  | [(key, value)] => by
    rw [cleanMembers, cleanMembers, membersChars, membersChars, chars_clean value]
  | (key, value) :: next :: members => by
    have hvalue := chars_clean value
    have hmembers := membersChars_cleanMembers (next :: members)
    calc
      membersChars (cleanMembers ((key, value) :: next :: members)) =
          escaping.quote key ++ ':' :: value.clean.chars ++
            ',' :: membersChars (cleanMembers (next :: members)) := rfl
      _ = escaping.quote key ++ ':' :: value.chars ++ ',' :: membersChars (next :: members) := by
        rw [hvalue, hmembers]

end

mutual

/-- Null is not equal to any double, and every finite double is equal to itself. -/
theorem clean_equals_iff : (v : Value) →
    (v.clean.equals v = true ↔ ∀ x ∈ v.doubles, x.isFinite = true)
  | null | bool _ | int _ | str _ => by simp [clean, equals, doubles]
  | float (.finite negative rank) => by
    have hself : (Double.finite negative rank).equals (.finite negative rank) = true :=
      Double.equals_iff.mpr ⟨_, rfl, rfl⟩
    exact iff_of_true hself (List.forall_mem_singleton.mpr rfl)
  | float (.infinite _) | float .nan => iff_of_false nofun (mt List.forall_mem_singleton.mp nofun)
  | arr items => by
    rw [clean, equals, doubles]
    exact cleanItems_equalItems_iff items
  | obj members => by
    rw [clean, equals, doubles]
    exact cleanMembers_equalMembers_iff members

theorem cleanItems_equalItems_iff : (items : List Value) →
    (equalItems (cleanItems items) items = true ↔ ∀ x ∈ itemDoubles items, x.isFinite = true)
  | [] => iff_of_true rfl (List.forall_mem_nil _)
  | item :: items => by
    rw [cleanItems, equalItems, itemDoubles, Bool.and_eq_true, List.forall_mem_append,
      clean_equals_iff item, cleanItems_equalItems_iff items]

theorem cleanMembers_equalMembers_iff : (members : List (String × Value)) →
    (equalMembers (cleanMembers members) members = true ↔
      ∀ x ∈ memberDoubles members, x.isFinite = true)
  | [] => iff_of_true rfl (List.forall_mem_nil _)
  | (key, value) :: members => by
    rw [cleanMembers, equalMembers, memberDoubles, Bool.and_eq_true, Bool.and_eq_true,
      beq_self_eq_true, List.forall_mem_append, clean_equals_iff value,
      cleanMembers_equalMembers_iff members]
    simp only [true_and]

end

/-- A value that has been in the data model has null for each double that is not finite, and is
otherwise as it was. So it equals what it was just if all its doubles are finite; it is shown as
before in any case, and another time there and back changes nothing. -/
theorem toTree_round_trip (v : CanonicalValue) :
    ofTree v.value.toTree = v.value.clean ∧
    ((ofTree v.value.toTree).equals v.value = true ↔
      ∀ x ∈ v.value.doubles, x.isFinite = true) ∧
    (ofTree v.value.toTree).display = v.value.display ∧
    ofTree (ofTree v.value.toTree).toTree = ofTree v.value.toTree := by
  obtain ⟨v, hcanonical⟩ := v
  dsimp only
  have hback := ofTree_toTree v hcanonical
  have hagain := ofTree_toTree v.clean (canonical_clean v hcanonical)
  refine ⟨hback, ?_, ?_, ?_⟩
  · rw [hback]
    exact clean_equals_iff v
  · rw [hback, display, display, chars_clean]
  · rw [hback, hagain, clean_clean]

/-- Minus zero keeps its sign, while NaN has become null and is no longer equal. -/
theorem toTree_round_trip_of_nan :
    ofTree (obj [("a", arr [float .nan]), ("b", float (.finite true ⟨0, by decide⟩))]).toTree =
      obj [("a", arr [null]), ("b", float (.finite true ⟨0, by decide⟩))] ∧
    (ofTree
      (obj [("a", arr [float .nan]), ("b", float (.finite true ⟨0, by decide⟩))]).toTree).equals
        (obj [("a", arr [float .nan]), ("b", float (.finite true ⟨0, by decide⟩))]) = false := by
  have hcanonical :
      (obj [("a", arr [float .nan]), ("b", float (.finite true ⟨0, by decide⟩))]).Canonical :=
    ⟨by decide, ⟨trivial, trivial⟩, trivial, trivial⟩
  obtain ⟨hclean, hequals, -, -⟩ := toTree_round_trip ⟨_, hcanonical⟩
  have hnan : ¬ ∀ x ∈ [Double.nan, .finite true ⟨0, by decide⟩], x.isFinite = true := by decide
  exact ⟨hclean, Bool.eq_false_iff.mpr (mt hequals.mp hnan)⟩

end DocQuery.Value
