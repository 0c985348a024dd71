import DocQuery.Proofs.Parts

/-! An object asks what an array of its members asks, each member in an item of its own. The items are
a level further down than the members were. -/

namespace DocQuery.Query

namespace Subject

variable (subject : Subject)

theorem itemPart_keyed (member : String × Value) :
    subject.itemPart (keyed member.1 member.2) = (subject.memberPart member).lowered 1 := by
  have hanswer := subject.meaning_keyed .all member.1 member.2
  have hlevels := subject.levels_keyed .all member.1 member.2
  rw [← entryMeaning_toList] at hanswer
  rw [itemPart, hanswer, hlevels]
  rfl

theorem itemParts_itemized (members : List (String × Value)) :
    (members.map fun member => keyed member.1 member.2).map subject.itemPart =
      (members.map subject.memberPart).map (Part.lowered 1) := by
  rw [List.map_map, List.map_map]
  exact List.map_congr_left fun member _ => subject.itemPart_keyed member

theorem meaning_itemized (c : Connective) (members : List (String × Value)) :
    subject.reading.meaning c (itemized members) = subject.reading.meaning c (.obj members) := by
  rw [itemized, meaning_arr, meaning_obj, itemParts_itemized, Connective.settle_lowered]

theorem levels_itemized (c : Connective) {members : List (String × Value)} (hne : members ≠ []) :
    subject.levels c (itemized members) = subject.levels c (.obj members) + 1 := by
  have hparts : members.map subject.memberPart ≠ [] := mt List.map_eq_nil_iff.mp hne
  rw [itemized, levels_arr, levels_obj, itemParts_itemized, Connective.deepest_lowered c hparts]

end Subject

/-- An object is an array of its members at the price of a level, both where all of them have to hold
and where any of them has to. -/
theorem satisfied_itemized {members : List (String × Value)} (hne : members ≠ [])
    (document : Document) (separator : Char) (limit : Nat) :
    satisfied ⟨limit + 1, separator⟩ (itemized members) document =
        relimit (limit + 1) (satisfied ⟨limit, separator⟩ (.obj members) document) ∧
      satisfied ⟨limit + 1, separator⟩ (keyed "$or" (itemized members)) document =
        relimit (limit + 1)
          (satisfied ⟨limit, separator⟩ (keyed "$or" (.obj members)) document) := by
  let subject : Subject := ⟨document, separator⟩
  have hor : MemberKey.ofKey "$or" = ⟨.parts .any, false⟩ := by decide
  have hprice : subject.levels .all (keyed "$or" (itemized members)) =
      subject.levels .all (keyed "$or" (.obj members)) + 1 := by
    rw [subject.levels_parts hor, subject.levels_parts hor, subject.levels_itemized .any hne]
  have hsame : subject.reading.meaning .all (keyed "$or" (itemized members)) =
      subject.reading.meaning .all (keyed "$or" (.obj members)) := by
    rw [subject.meaning_parts hor, subject.meaning_parts hor, subject.meaning_itemized]
  exact ⟨satisfied_eq_of_same_meaning limit (subject.levels_itemized .all hne)
      (subject.meaning_itemized .all members),
    satisfied_eq_of_same_meaning limit hprice hsame⟩

theorem satisfied_itemized_short_of_a_level :
    [("!b", keyed "$not" .null), ("a", Value.int 1)] ≠ [] ∧
      satisfied ⟨3, '.'⟩ (itemized [("!b", keyed "$not" .null), ("a", .int 1)]) [] =
        relimit 3 (satisfied ⟨2, '.'⟩ (.obj [("!b", keyed "$not" .null), ("a", .int 1)]) []) ∧
      satisfied ⟨6, '.'⟩ (keyed "$or" (itemized [("!b", keyed "$not" .null), ("a", .int 1)])) [] =
        relimit 6 (satisfied ⟨5, '.'⟩
          (keyed "$or" (.obj [("!b", keyed "$not" .null), ("a", .int 1)])) []) := by
  have hne : [("!b", keyed "$not" .null), ("a", Value.int 1)] ≠ [] := List.cons_ne_nil _ _
  exact ⟨hne, (satisfied_itemized hne [] '.' 2).1, (satisfied_itemized hne [] '.' 5).2⟩

-- an object without members is no deeper than an array without items
example : satisfied ⟨1, '.'⟩ (itemized []) [] = satisfied ⟨1, '.'⟩ (.obj []) [] := rfl

end DocQuery.Query
