/-!
What a text holds between quotation marks. A quotation mark is escaped if a run of backslashes of odd
length stands right before it, and every other one delimits.
-/

namespace DocQuery.Text

/-- The length of the run of backslashes at the end of what has been read, which is in reverse. -/
def backslashes (read : List Char) : Nat := (read.takeWhile (· == '\\')).length

/--
The pieces of a text between its delimiting quotation marks. What has been read of the first piece is
kept in reverse.
-/
def cut (read : List Char) : List Char → List (List Char)
  | [] => [read.reverse]
  | c :: cs =>
    if c = '"' ∧ backslashes read % 2 = 0 then read.reverse :: cut [] cs else cut (c :: read) cs

/-- Every second piece, which stands between the marks of a pair, if all marks come in pairs. -/
def enclosed? : List (List Char) → Option (List (List Char))
  | [] => none
  | [_] => some []
  | _ :: inner :: pieces => (enclosed? pieces).map (inner :: ·)

end DocQuery.Text
