import DocQuery.Json.Literal
/-!
The tokens that spell a literal: items and members stand between commas, and nothing else is added.
The tokens that have led to a state of the machine, and the texts of containers, follow from that.
-/

namespace DocQuery.Json

namespace Literal

mutual

def tokens : Literal → List Token
  | null => [.null]
  | bool b => [.bool b]
  | number n => [.number n]
  | string content => [.string content]
  | array items => .beginArray :: itemTokens items ++ [.endArray]
  | object members => .beginObject :: memberTokens members ++ [.endObject]

def itemTokens : List Literal → List Token
  | [] => []
  | [item] => item.tokens
  | item :: items => item.tokens ++ .comma :: itemTokens items

def memberTokens : List (Option String × Literal) → List Token
  | [] => []
  | [(key, value)] => .string key :: .colon :: value.tokens
  | (key, value) :: members =>
    .string key :: .colon :: value.tokens ++ .comma :: memberTokens members

end

/-- The tokens of items that are not the last of their array. -/
def leadingItems (items : List Literal) : List Token :=
  items.flatMap fun item => item.tokens ++ [.comma]

/-- The tokens of a key and its value. -/
def entryTokens (member : Option String × Literal) : List Token :=
  .string member.1 :: .colon :: member.2.tokens

/-- The tokens of members that are not the last of their object. -/
def leadingMembers (members : List (Option String × Literal)) : List Token :=
  members.flatMap fun member => entryTokens member ++ [.comma]

/-- The tokens of an open container, up to the value that is being read. -/
def Frame.tokens : Frame → List Token
  | .array items => .beginArray :: leadingItems items.reverse
  | .object members key =>
    .beginObject :: leadingMembers members.reverse ++ [.string key, .colon]

def frameTokens (frames : List Frame) : List Token := frames.reverse.flatMap Frame.tokens

/-- The tokens that have been read in a state. -/
def State.tokens : State → List Token
  | .value frames => frameTokens frames
  | .item frames => frameTokens frames ++ [.beginArray]
  | .member frames => frameTokens frames ++ [.beginObject]
  | .key frames members => frameTokens frames ++ .beginObject :: leadingMembers members.reverse
  | .colon frames members name =>
    frameTokens frames ++ (.beginObject :: leadingMembers members.reverse ++ [.string name])
  | .after frames last => frameTokens frames ++ last.tokens

end Literal

/-- The text of an array, from those of its items. -/
def arrayText (items : List String) : String := "[" ++ ",".intercalate items ++ "]"

/-- The text of an object, from those of its keys and values. -/
def objectText (members : List (String × String)) : String :=
  "\x7b" ++ ",".intercalate (members.map fun member => member.1 ++ ":" ++ member.2) ++ "\x7d"

end DocQuery.Json
