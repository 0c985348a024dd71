import DocQuery.Proofs.Wrapping

/-! Marks in front of a key cost no levels. All that is left of them is whether their number is odd;
what the key aims at, and every error, is that of the key without them. -/

namespace DocQuery.Query

theorem marked_zero (key : String) : marked 0 key = key := String.ofList_toList

theorem toList_marked_succ (marks : Nat) (key : String) :
    (marked (marks + 1) key).toList = '!' :: (marked marks key).toList := by
  unfold marked
  rw [String.toList_ofList, String.toList_ofList]
  rfl

namespace MemberKey

theorem unmark_mark (cs : List Char) : unmark ('!' :: cs) = (!(unmark cs).1, (unmark cs).2) := rfl

theorem ofKey_eq_unmark (key : String) :
    ofKey key =
      { target := .ofBase (String.ofList (unmark key.toList).2)
        negated := (unmark key.toList).1 } := rfl

/-- Marks in front of a text are taken away before its own, and each turns once more. -/
theorem unmark_marked (marks : Nat) (text : String) :
    unmark (marked marks text).toList =
      ((unmark text.toList).1 != (marks % 2 == 1), (unmark text.toList).2) := by
  induction marks with
  | zero =>
    have hsame : ((unmark text.toList).1 != (0 % 2 == 1)) = (unmark text.toList).1 :=
      Bool.bne_false _
    rw [marked_zero, hsame]
  | succ marks ih =>
    have hturn : ((unmark text.toList).1 != ((marks + 1) % 2 == 1)) =
        !((unmark text.toList).1 != (marks % 2 == 1)) := by
      rw [odd_succ, Bool.bne_not]
    rw [toList_marked_succ, unmark_mark, ih, hturn]

/-- A key behind marks has its own target, and is turned as often as there are marks. -/
theorem ofKey_marked (marks : Nat) (key : String) :
    ofKey (marked marks key) =
      { ofKey key with negated := (ofKey key).negated != (marks % 2 == 1) } := by
  rw [ofKey_eq_unmark, ofKey_eq_unmark, unmark_marked]

end MemberKey

/-- Only the parity of the marks counts: an even number of them changes nothing and an odd number
turns an answer round, while errors stay as they are. -/
theorem satisfied_marked (options : Options) (document : Document) (marks : Nat) (key : String)
    (expectation : Value) :
    satisfied options (keyed (marked marks key) expectation) document =
      turn (marks % 2 == 1) (satisfied options (keyed key expectation) document) := by
  let subject : Subject := ⟨document, options.separator⟩
  have hkey := MemberKey.ofKey_marked marks key
  have hlevels : subject.levels .all (keyed (marked marks key) expectation) =
      subject.levels .all (keyed key expectation) := by
    rw [subject.levels_keyed, subject.levels_keyed, hkey]
  have hmeaning : subject.reading.meaning .all (keyed (marked marks key) expectation) =
      turn (marks % 2 == 1) (subject.reading.meaning .all (keyed key expectation)) := by
    rw [subject.meaning_keyed, subject.meaning_keyed, hkey, turn_turn]
  rw [satisfied_result, satisfied_result, hlevels, hmeaning]
  split
  · rfl
  · rfl

example : satisfied {} (keyed (marked 3 "!$or") (.arr [])) [] = .ok false := rfl

end DocQuery.Query
