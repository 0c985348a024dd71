import DocQuery.Proofs.Parts

/-! The opposite of one connective is the other one over the opposites of its sub-queries: it stops at
the same sub-query and fails with the same error, two levels further down. -/

namespace DocQuery.Query

namespace Subject

variable (subject : Subject)

theorem itemPart_not (query : Value) :
    subject.itemPart (keyed "$not" query) = (subject.itemPart query).opposite.lowered 2 := by
  have hkey : MemberKey.ofKey "$not" = ⟨.opposite, false⟩ := by decide
  have hwraps : Wraps (keyed "$not") 2 true := .of_opposite hkey
  have hanswer := hwraps.meaning_eq subject query
  have hlevels := hwraps.levels_eq subject query
  rw [itemPart, hanswer, hlevels]
  rfl

theorem itemParts_not (queries : List Value) :
    (queries.map (keyed "$not")).map subject.itemPart =
      ((queries.map subject.itemPart).map Part.opposite).map (Part.lowered 2) := by
  rw [List.map_map, List.map_map, List.map_map]
  exact List.map_congr_left fun query _ => subject.itemPart_not query

theorem meaning_not_items (c : Connective) (queries : List Value) :
    subject.reading.meaning c.dual (.arr (queries.map (keyed "$not"))) =
      turn true (subject.reading.meaning c (.arr queries)) := by
  rw [meaning_arr, meaning_arr, itemParts_not, Connective.settle_lowered,
    Connective.settle_opposite]

/-- Without sub-queries nothing is further down. -/
theorem levels_not_items_le (c : Connective) (queries : List Value) :
    subject.levels c.dual (.arr (queries.map (keyed "$not"))) ≤
      subject.levels c (.arr queries) + 2 := by
  have hdeepest := c.dual.deepest_lowered_le ((queries.map subject.itemPart).map Part.opposite) 2
  rw [Connective.deepest_opposite] at hdeepest
  rw [levels_arr, levels_arr, itemParts_not]
  omega

end Subject

/-- A connective that its limit does not stop is the opposite of the other one over opposites. -/
theorem satisfied_dual {c : Connective} {key opposite : String}
    (hkey : MemberKey.ofKey key = ⟨.parts c, false⟩)
    (hopposite : MemberKey.ofKey opposite = ⟨.parts c.dual, true⟩) {queries : List Value}
    {document : Document} {separator : Char} {limit : Nat}
    (h : ∀ exceeded, satisfied ⟨limit, separator⟩ (keyed key (.arr queries)) document ≠
      .error (.tooDeep exceeded)) :
    satisfied ⟨limit + 2, separator⟩ (keyed opposite (.arr (queries.map (keyed "$not")))) document =
      satisfied ⟨limit, separator⟩ (keyed key (.arr queries)) document := by
  let subject : Subject := ⟨document, separator⟩
  have hmeaning : subject.reading.meaning .all (keyed opposite (.arr (queries.map (keyed "$not")))) =
      subject.reading.meaning .all (keyed key (.arr queries)) := by
    rw [subject.meaning_parts hopposite, subject.meaning_parts hkey, subject.meaning_not_items,
      turn_turn]
    rfl
  have hlevels : subject.levels .all (keyed opposite (.arr (queries.map (keyed "$not")))) ≤
      subject.levels .all (keyed key (.arr queries)) + 2 := by
    have hitems := subject.levels_not_items_le c queries
    rw [subject.levels_parts hopposite, subject.levels_parts hkey]
    omega
  have henough : subject.levels .all (keyed key (.arr queries)) ≤ limit :=
    levels_le_of_ne_tooDeep h
  have hroom : subject.levels .all (keyed opposite (.arr (queries.map (keyed "$not")))) ≤
      limit + 2 := Nat.le_trans hlevels (Nat.add_le_add_right henough 2)
  rw [satisfied_result, satisfied_result]
  exact (if_pos hroom).trans (hmeaning.trans (if_pos henough).symm)

/-- One of several sub-queries holds unless the opposite of each of them does, and all of them hold
unless the opposite of one of them does. Both sides fail alike, as long as the limit allows the plain
side. -/
theorem satisfied_de_morgan (queries : List Value) (document : Document) (separator : Char)
    (limit : Nat) :
    ((∀ exceeded, satisfied ⟨limit, separator⟩ (keyed "$or" (.arr queries)) document ≠
        .error (.tooDeep exceeded)) →
      satisfied ⟨limit + 2, separator⟩ (keyed "!$and" (.arr (queries.map (keyed "$not"))))
          document =
        satisfied ⟨limit, separator⟩ (keyed "$or" (.arr queries)) document) ∧
    ((∀ exceeded, satisfied ⟨limit, separator⟩ (keyed "$and" (.arr queries)) document ≠
        .error (.tooDeep exceeded)) →
      satisfied ⟨limit + 2, separator⟩ (keyed "!$or" (.arr (queries.map (keyed "$not"))))
          document =
        satisfied ⟨limit, separator⟩ (keyed "$and" (.arr queries)) document) := by
  have hor : MemberKey.ofKey "$or" = ⟨.parts .any, false⟩ := by decide
  have hand : MemberKey.ofKey "$and" = ⟨.parts .all, false⟩ := by decide
  have hnotAnd : MemberKey.ofKey "!$and" = ⟨.parts .all, true⟩ := by decide
  have hnotOr : MemberKey.ofKey "!$or" = ⟨.parts .any, true⟩ := by decide
  exact ⟨fun h => satisfied_dual hor hnotAnd h, fun h => satisfied_dual hand hnotOr h⟩

/-- The sub-query that holds and the one that fails are met in the same order on both sides. -/
theorem satisfied_de_morgan_holding_and_failing :
    ((∀ exceeded, satisfied ⟨5, '.'⟩
          (keyed "$or" (.arr [keyed "a" (.int 1), keyed "b" (keyed "$gt" (.str "x"))]))
          [("a", .int 1)] ≠ .error (.tooDeep exceeded)) ∧
      satisfied ⟨7, '.'⟩ (keyed "!$and"
          (.arr [keyed "$not" (keyed "a" (.int 1)),
            keyed "$not" (keyed "b" (keyed "$gt" (.str "x")))])) [("a", .int 1)] = .ok true) ∧
    ((∀ exceeded, satisfied ⟨5, '.'⟩
          (keyed "$and" (.arr [keyed "a" (.int 1), keyed "b" (keyed "$gt" (.str "x"))]))
          [("a", .int 1)] ≠ .error (.tooDeep exceeded)) ∧
      satisfied ⟨7, '.'⟩ (keyed "!$or"
          (.arr [keyed "$not" (keyed "a" (.int 1)),
            keyed "$not" (keyed "b" (keyed "$gt" (.str "x")))])) [("a", .int 1)] =
        .error (.notOrdered .string)) := by
  have hor : ∀ exceeded, satisfied ⟨5, '.'⟩
      (keyed "$or" (.arr [keyed "a" (.int 1), keyed "b" (keyed "$gt" (.str "x"))]))
      [("a", .int 1)] ≠ .error (.tooDeep exceeded) := nofun
  have hand : ∀ exceeded, satisfied ⟨5, '.'⟩
      (keyed "$and" (.arr [keyed "a" (.int 1), keyed "b" (keyed "$gt" (.str "x"))]))
      [("a", .int 1)] ≠ .error (.tooDeep exceeded) := nofun
  obtain ⟨hnotAnd, hnotOr⟩ := satisfied_de_morgan
    [keyed "a" (.int 1), keyed "b" (keyed "$gt" (.str "x"))] [("a", .int 1)] '.' 5
  exact ⟨⟨hor, hnotAnd hor⟩, ⟨hand, hnotOr hand⟩⟩

-- the opposite of no sub-query takes no level more, so the limit has to allow the plain side
example : satisfied ⟨2, '.'⟩ (keyed "$or" (.arr [])) [] = .error (.tooDeep 2) := rfl

example : satisfied ⟨4, '.'⟩ (keyed "!$and" (.arr [])) [] = .ok false := rfl

end DocQuery.Query
