import DocQuery.Proofs.Wrapping

/-! The answer to a query and the levels that it takes are those of its parts, taken together under a
connective. What is done to every part alike is therefore done to the whole. -/

namespace DocQuery.Query

/-- All that counts of a part of a query: its answer, and the levels that it takes. -/
structure Part where
  answer : Except MatchError Bool
  levels : Nat

namespace Part

/-- The part some levels further down. -/
def lowered (price : Nat) (part : Part) : Part := ⟨part.answer, part.levels + price⟩

/-- The part with the opposite answer. -/
def opposite (part : Part) : Part := ⟨turn true part.answer, part.levels⟩

end Part

namespace Connective

variable (c : Connective)

/-- The other connective. -/
def dual : Connective → Connective
  | all => any
  | any => all

/-- What answers come to one after the other: the first that leaves nothing open counts. -/
def settle (answers : List (Except MatchError Bool)) : Except MatchError Bool :=
  answers.foldr c.combine (.ok c.vacuous)

/-- The levels that parts take, down to the one that counts. -/
def deepest (parts : List Part) : Nat :=
  parts.foldr (fun part further => c.levels part.answer part.levels further) 0

@[simp] theorem settle_nil : c.settle [] = .ok c.vacuous := rfl

@[simp] theorem settle_cons (first : Except MatchError Bool)
    (rest : List (Except MatchError Bool)) :
    c.settle (first :: rest) = c.combine first (c.settle rest) := rfl

@[simp] theorem deepest_nil : c.deepest [] = 0 := rfl

@[simp] theorem deepest_cons (first : Part) (rest : List Part) :
    c.deepest (first :: rest) = c.levels first.answer first.levels (c.deepest rest) := rfl

/-- The opposite of a part settles the opposite of the whole under the other connective. -/
theorem combine_dual (first rest : Except MatchError Bool) :
    c.dual.combine (turn true first) (turn true rest) = turn true (c.combine first rest) := by
  cases c <;> rcases first with e | _ | _ <;> rfl

/-- So it leaves the rest open there just where the part itself does here. -/
theorem levels_dual (first : Except MatchError Bool) (here further : Nat) :
    c.dual.levels (turn true first) here further = c.levels first here further := by
  cases c <;> rcases first with e | _ | _ <;> rfl

theorem levels_add (first : Except MatchError Bool) (here further price : Nat) :
    c.levels first (here + price) (further + price) = c.levels first here further + price := by
  unfold levels
  split
  · exact Nat.add_max_add_right here further price
  · exact Nat.add_max_add_right here further price
  · rfl

theorem settle_opposite (parts : List Part) :
    c.dual.settle ((parts.map Part.opposite).map Part.answer) =
      turn true (c.settle (parts.map Part.answer)) := by
  induction parts with
  | nil => cases c <;> rfl
  | cons first rest ih =>
    simp only [List.map_cons, settle_cons]
    rw [ih]
    exact c.combine_dual _ _

theorem deepest_opposite (parts : List Part) :
    c.dual.deepest (parts.map Part.opposite) = c.deepest parts := by
  induction parts with
  | nil => rfl
  | cons first rest ih =>
    rw [List.map_cons, deepest_cons, deepest_cons, ih]
    exact c.levels_dual _ _ _

theorem settle_lowered (price : Nat) (parts : List Part) :
    c.settle ((parts.map (Part.lowered price)).map Part.answer) =
      c.settle (parts.map Part.answer) := by
  rw [List.map_map]
  rfl

/-- What all parts take more, they take more together. Where there are none, there is none to take
more. -/
theorem deepest_lowered {parts : List Part} (hne : parts ≠ []) (price : Nat) :
    c.deepest (parts.map (Part.lowered price)) = c.deepest parts + price := by
  induction parts with
  | nil => exact absurd rfl hne
  | cons first rest ih =>
    rw [List.map_cons, deepest_cons, deepest_cons, Part.lowered]
    cases rest with
    | nil => rw [List.map_nil, deepest_nil, levels_alone, levels_alone]
    | cons second rest => rw [ih (List.cons_ne_nil second rest), levels_add]

theorem deepest_lowered_le (parts : List Part) (price : Nat) :
    c.deepest (parts.map (Part.lowered price)) ≤ c.deepest parts + price := by
  cases parts with
  | nil => exact Nat.zero_le _
  | cons first rest => exact Nat.le_of_eq (c.deepest_lowered (List.cons_ne_nil first rest) price)

end Connective

namespace Subject

variable (subject : Subject)

/-- A member takes its own levels and that of its key. -/
def memberPart (member : String × Value) : Part where
  answer := subject.reading.entryMeaning member.2 (fun c => subject.reading.meaning c member.2)
    member.1.toList
  levels :=
    (MemberKey.ofKey member.1).target.levels member.2 (fun c => subject.levels c member.2) + 1

/-- All parts of an item have to hold, whatever connective it stands under. -/
def itemPart (item : Value) : Part := ⟨subject.reading.meaning .all item, subject.levels .all item⟩

theorem meaning_obj (c : Connective) (members : List (String × Value)) :
    subject.reading.meaning c (.obj members) =
      c.settle ((members.map subject.memberPart).map Part.answer) := by
  rw [Reading.meaning]
  induction members with
  | nil => rfl
  | cons member members ih =>
    rw [Reading.membersMeaning, ih]
    rfl

theorem meaning_arr (c : Connective) (items : List Value) :
    subject.reading.meaning c (.arr items) =
      c.settle ((items.map subject.itemPart).map Part.answer) := by
  rw [Reading.meaning]
  induction items with
  | nil => rfl
  | cons item items ih =>
    rw [Reading.itemsMeaning, ih]
    rfl

theorem levels_obj (c : Connective) (members : List (String × Value)) :
    subject.levels c (.obj members) = c.deepest (members.map subject.memberPart) + 1 := by
  rw [levels]
  induction members with
  | nil => rfl
  | cons member members ih =>
    rw [membersLevels, Nat.add_right_cancel ih]
    rfl

theorem levels_arr (c : Connective) (items : List Value) :
    subject.levels c (.arr items) = c.deepest (items.map subject.itemPart) + 1 := by
  rw [levels]
  induction items with
  | nil => rfl
  | cons item items ih =>
    rw [itemsLevels, Nat.add_right_cancel ih]
    rfl

end Subject

end DocQuery.Query
