import DocQuery.Proofs.Threshold
import DocQuery.Query.Wrapped

/-! What is left of the limit is all that an evaluation uses of it. So a wrapping has a price: it
takes the levels of its containers and of their keys, and leaves the answer as it is or turns it
round. -/

namespace DocQuery.Query

/-- An answer that knows no limit, given only if there is room for it. -/
theorem relimit_ite {answer : Except MatchError Bool}
    (h : ∀ limit, answer ≠ .error (.tooDeep limit)) (room : Prop) [Decidable room]
    (limit new : Nat) :
    relimit new (if room then answer else .error (.tooDeep limit)) =
      if room then answer else .error (.tooDeep new) := by
  by_cases hroom : room
  · rw [if_pos hroom, if_pos hroom]
    unfold relimit
    split
    · exact absurd rfl (h _)
    · rfl
  · rw [if_neg hroom, if_neg hroom]
    rfl

/-- Whether an answer is granted is up to the levels that are left; its error names the limit. -/
theorem Depth.grant_eq_relimit (depth : Depth) (levels : Nat) {answer : Except MatchError Bool}
    (h : ∀ limit, answer ≠ .error (.tooDeep limit)) :
    depth.grant levels answer =
      relimit depth.limit ((Depth.top depth.remaining).grant levels answer) := by
  have hle := depth.level_le_limit
  have hroom : depth.level + levels ≤ depth.limit ↔ 0 + levels ≤ depth.limit - depth.level := by
    omega
  unfold Depth.grant Depth.top Depth.remaining
  rw [relimit_ite h]
  simp only [hroom]

/-- A part alone is all there is to a connective. -/
theorem Connective.levels_alone (c : Connective) (first : Except MatchError Bool) (n : Nat) :
    c.levels first n 0 = n := by
  unfold Connective.levels
  split <;> simp only [Nat.max_zero]

theorem Connective.combine_alone (c : Connective) (first : Except MatchError Bool) :
    c.combine first (.ok c.vacuous) = first := by
  cases c <;> rcases first with e | _ | _ <;> rfl

namespace Subject

variable (subject : Subject)

theorem levels_listed (c : Connective) (query : Value) :
    subject.levels c (listed query) = subject.levels .all query + 1 := by
  simp only [listed, levels, itemsLevels, Connective.levels_alone]

theorem meaning_listed (c : Connective) (query : Value) :
    subject.reading.meaning c (listed query) = subject.reading.meaning .all query := by
  simp only [listed, Reading.meaning, Reading.itemsMeaning, Connective.combine_alone]

theorem levels_keyed (c : Connective) (key : String) (expectation : Value) :
    subject.levels c (keyed key expectation) =
      (MemberKey.ofKey key).target.levels expectation
        (fun c => subject.levels c expectation) + 2 := by
  simp only [keyed, levels, membersLevels, Connective.levels_alone]

theorem meaning_keyed (c : Connective) (key : String) (expectation : Value) :
    subject.reading.meaning c (keyed key expectation) =
      turn (MemberKey.ofKey key).negated
        (subject.targetMeaning expectation (fun c => subject.reading.meaning c expectation)
          (MemberKey.ofKey key).target) := by
  simp only [keyed, Reading.meaning, Reading.membersMeaning, Connective.combine_alone,
    entryMeaning_toList]

/-- A key that leads to sub-queries takes a level, and so does the object around it. -/
theorem levels_parts {key : String} {c : Connective} {negated : Bool}
    (hkey : MemberKey.ofKey key = ⟨.parts c, negated⟩) (query : Value) :
    subject.levels .all (keyed key query) = subject.levels c query + 2 := by
  rw [levels_keyed, hkey]
  rfl

theorem meaning_parts {key : String} {c : Connective} {negated : Bool}
    (hkey : MemberKey.ofKey key = ⟨.parts c, negated⟩) (query : Value) :
    subject.reading.meaning .all (keyed key query) =
      turn negated (subject.reading.meaning c query) := by
  rw [meaning_keyed, hkey]
  rfl

/-- The meaning of a member knows no limit either, as it is that of an object. -/
theorem entryMeaning_ne_tooDeep (key : String) (expectation : Value) (limit : Nat) :
    subject.reading.entryMeaning expectation (fun c => subject.reading.meaning c expectation)
        key.toList ≠ .error (.tooDeep limit) := by
  have hobject := subject.meaning_ne_tooDeep .all (keyed key expectation) limit
  rw [meaning_keyed, ← entryMeaning_toList] at hobject
  exact hobject

/-- The result of an evaluation is up to the levels that are left. -/
theorem evaluate_result_eq_top (c : Connective) (depth : Depth) (query : Value) :
    (subject.evaluate c depth query).result =
      relimit depth.limit (subject.evaluate c (.top depth.remaining) query).result := by
  rw [evaluate_result, evaluate_result]
  exact depth.grant_eq_relimit _ (subject.meaning_ne_tooDeep c query)

theorem entry_result_eq_top (depth : Depth) (key : String) (expectation : Value) :
    (subject.entry depth key expectation fun c below =>
        subject.evaluate c below expectation).result =
      relimit depth.limit (subject.entry (.top depth.remaining) key expectation fun c below =>
        subject.evaluate c below expectation).result := by
  have hsub (c : Connective) (below : Depth) := subject.evaluate_result c below expectation
  rw [subject.entry_result depth key expectation hsub,
    subject.entry_result (.top depth.remaining) key expectation hsub]
  exact depth.grant_eq_relimit _ (subject.entryMeaning_ne_tooDeep key expectation)

end Subject

/-- A query that takes some levels more than another, and means the same or the opposite, answers so
under a limit that is higher by as much. -/
theorem satisfied_eq_of_price {query other : Value} {document : Document} {separator : Char}
    {price : Nat} {negated : Bool} (limit : Nat)
    (hlevels : Subject.levels ⟨document, separator⟩ .all other =
      Subject.levels ⟨document, separator⟩ .all query + price)
    (hmeaning : (Subject.reading ⟨document, separator⟩).meaning .all other =
      turn negated ((Subject.reading ⟨document, separator⟩).meaning .all query)) :
    satisfied ⟨limit + price, separator⟩ other document =
      turn negated (relimit (limit + price) (satisfied ⟨limit, separator⟩ query document)) := by
  let subject : Subject := ⟨document, separator⟩
  have hroom : subject.levels .all query + price ≤ limit + price ↔
      subject.levels .all query ≤ limit := Nat.add_le_add_iff_right
  rw [satisfied_result, satisfied_result, hlevels, hmeaning,
    relimit_ite (subject.meaning_ne_tooDeep .all query)]
  by_cases henough : subject.levels .all query ≤ limit
  · rw [if_pos (hroom.mpr henough), if_pos henough]
  · rw [if_neg (mt hroom.mp henough), if_neg henough]
    rfl

theorem satisfied_eq_of_same_meaning {query other : Value} {document : Document} {separator : Char}
    {price : Nat} (limit : Nat)
    (hlevels : Subject.levels ⟨document, separator⟩ .all other =
      Subject.levels ⟨document, separator⟩ .all query + price)
    (hmeaning : (Subject.reading ⟨document, separator⟩).meaning .all other =
      (Subject.reading ⟨document, separator⟩).meaning .all query) :
    satisfied ⟨limit + price, separator⟩ other document =
      relimit (limit + price) (satisfied ⟨limit, separator⟩ query document) := by
  have hanswer := satisfied_eq_of_price limit hlevels (hmeaning.trans (turn_false _).symm)
  rw [turn_false] at hanswer
  exact hanswer

/-- The wrapping takes as many levels, and turns the answer round or not, whatever it is around. -/
structure Wraps (wrap : Value → Value) (price : Nat) (negated : Bool) : Prop where
  levels_eq : ∀ (subject : Subject) (query : Value),
    subject.levels .all (wrap query) = subject.levels .all query + price
  meaning_eq : ∀ (subject : Subject) (query : Value),
    subject.reading.meaning .all (wrap query) = turn negated (subject.reading.meaning .all query)

namespace Wraps

variable {wrap outer inner : Value → Value} {price outerPrice innerPrice : Nat}
variable {negated outerNegated innerNegated : Bool}

theorem listed : Wraps listed 1 false where
  levels_eq subject query := subject.levels_listed .all query
  meaning_eq subject query := by rw [subject.meaning_listed, turn_false]

/-- A key whose sub-query has to hold: `$and`, behind any marks. -/
theorem of_parts_all {key : String} (hkey : MemberKey.ofKey key = ⟨.parts .all, negated⟩) :
    Wraps (keyed key) 2 negated where
  levels_eq subject query := subject.levels_parts hkey query
  meaning_eq subject query := subject.meaning_parts hkey query

theorem of_opposite {key : String} (hkey : MemberKey.ofKey key = ⟨.opposite, negated⟩) :
    Wraps (keyed key) 2 (!negated) where
  levels_eq subject query := by
    rw [subject.levels_keyed, hkey]
    rfl
  meaning_eq subject query := by
    have hopposite : subject.targetMeaning query (fun c => subject.reading.meaning c query) .opposite =
        turn true (subject.reading.meaning .all query) := map_not _
    rw [subject.meaning_keyed, hkey, hopposite, turn_turn, Bool.true_bne]

/-- The one item of an array is all that its connective asks for, at the price of a level more. -/
theorem of_parts_any_listed {key : String} (hkey : MemberKey.ofKey key = ⟨.parts .any, negated⟩) :
    Wraps (fun query => keyed key (Query.listed query)) 3 negated where
  levels_eq subject query := by rw [subject.levels_parts hkey, subject.levels_listed]
  meaning_eq subject query := by rw [subject.meaning_parts hkey, subject.meaning_listed]

theorem nothing : Wraps id 0 false where
  levels_eq _ _ := rfl
  meaning_eq _ _ := (turn_false _).symm

theorem comp (houter : Wraps outer outerPrice outerNegated)
    (hinner : Wraps inner innerPrice innerNegated) :
    Wraps (outer ∘ inner) (innerPrice + outerPrice) (innerNegated != outerNegated) where
  levels_eq subject query := by
    have hlevels := houter.levels_eq subject (inner query)
    rw [hinner.levels_eq] at hlevels
    rw [Function.comp_apply, hlevels, Nat.add_assoc]
  meaning_eq subject query := by
    rw [Function.comp_apply, houter.meaning_eq, hinner.meaning_eq, turn_turn]

/-- Prices add up, and two turns are none. -/
theorem wrapped (h : Wraps wrap price negated) (times : Nat) :
    Wraps (wrapped wrap times) (price * times) (negated && times % 2 == 1) := by
  induction times with
  | zero =>
    have hnothing : (negated && 0 % 2 == 1) = false := Bool.and_false negated
    rw [Nat.mul_zero, hnothing]
    exact nothing
  | succ times ih =>
    have hturn : (negated && (times + 1) % 2 == 1) = ((negated && times % 2 == 1) != negated) := by
      rw [odd_succ]
      cases negated <;> cases times % 2 == 1 <;> rfl
    rw [hturn, Nat.mul_succ]
    exact h.comp ih

/-- A limit that is higher by the price makes up for the wrapping. -/
theorem satisfied_eq (h : Wraps wrap price negated) (limit : Nat) (separator : Char)
    (query : Value) (document : Document) :
    satisfied ⟨limit + price, separator⟩ (wrap query) document =
      turn negated
        (relimit (limit + price) (satisfied ⟨limit, separator⟩ query document)) :=
  satisfied_eq_of_price limit (h.levels_eq ⟨document, separator⟩ query)
    (h.meaning_eq ⟨document, separator⟩ query)

end Wraps

/-- An evaluation is up to the levels that are left to it, wherever it starts. So an array around a
query costs a level and a key two, as often as they are put around it, and only an odd number of
negations turns the answer round. -/
theorem satisfied_wrapped (query : Value) (document : Document) (separator : Char)
    (limit times : Nat) :
    (∀ (c : Connective) (depth : Depth),
      (Subject.evaluate ⟨document, separator⟩ c depth query).result =
        relimit depth.limit
          (Subject.evaluate ⟨document, separator⟩ c (.top depth.remaining) query).result) ∧
    (∀ (key : String) (depth : Depth),
      (Subject.entry ⟨document, separator⟩ depth key query fun c below =>
          Subject.evaluate ⟨document, separator⟩ c below query).result =
        relimit depth.limit
          (Subject.entry ⟨document, separator⟩ (.top depth.remaining) key query fun c below =>
            Subject.evaluate ⟨document, separator⟩ c below query).result) ∧
    satisfied ⟨limit + times, separator⟩ (wrapped listed times query) document =
      relimit (limit + times) (satisfied ⟨limit, separator⟩ query document) ∧
    satisfied ⟨limit + 2 * times, separator⟩ (wrapped (keyed "$and") times query) document =
      relimit (limit + 2 * times) (satisfied ⟨limit, separator⟩ query document) ∧
    satisfied ⟨limit + 2 * times, separator⟩ (wrapped (keyed "$not") times query) document =
      turn (times % 2 == 1)
        (relimit (limit + 2 * times) (satisfied ⟨limit, separator⟩ query document)) ∧
    satisfied ⟨limit + 3, separator⟩ (keyed "$or" (listed query)) document =
      relimit (limit + 3) (satisfied ⟨limit, separator⟩ query document) := by
  let subject : Subject := ⟨document, separator⟩
  have hnotKey : MemberKey.ofKey "$not" = ⟨.opposite, false⟩ := by decide
  have handWraps : Wraps (keyed "$and") 2 false := .of_parts_all (by decide)
  have hnotWraps : Wraps (keyed "$not") 2 true := .of_opposite hnotKey
  have horWraps : Wraps (fun query => keyed "$or" (listed query)) 3 false :=
    .of_parts_any_listed (by decide)
  have hlisted := (Wraps.listed.wrapped times).satisfied_eq limit separator query document
  have hand := (handWraps.wrapped times).satisfied_eq limit separator query document
  have hnot := (hnotWraps.wrapped times).satisfied_eq limit separator query document
  have hor := horWraps.satisfied_eq limit separator query document
  simp only [Nat.one_mul, Bool.false_and, Bool.true_and, turn_false] at hlisted hand hnot hor
  exact ⟨fun c depth => subject.evaluate_result_eq_top c depth query,
    fun key depth => subject.entry_result_eq_top depth key query, hlisted, hand, hnot, hor⟩

example : satisfied ⟨7, '.'⟩ (wrapped (keyed "$not") 3 (.obj [("a", .int 1)])) [] =
    .error (.tooDeep 7) := rfl

example : satisfied ⟨8, '.'⟩ (wrapped (keyed "$not") 3 (.obj [("a", .int 1)])) [] = .ok true := rfl

end DocQuery.Query
