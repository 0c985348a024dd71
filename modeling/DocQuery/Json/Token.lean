import DocQuery.Json.Numeral
import DocQuery.Text.Quoted
/-!
The tokens of a JSON text: six marks, quoted strings, and words. A word is a longest run of
characters that are neither blank nor a mark nor a quotation mark.
-/

namespace DocQuery.Json

/-- A token. The content of a string is missing if a surrogate in it has no partner. -/
inductive Token where
  | beginArray
  | endArray
  | beginObject
  | endObject
  | comma
  | colon
  | null
  | bool (b : Bool)
  | number (n : Numeral)
  | string (content : Option String)
  deriving DecidableEq, Repr

namespace Token

/-- Space, tab, line feed and carriage return. -/
def isBlank (c : Char) : Bool := c == ' ' || c == '\t' || c == '\n' || c == '\r'

def mark? : Char → Option Token
  | '[' => some beginArray
  | ']' => some endArray
  | '{' => some beginObject
  | '}' => some endObject
  | ',' => some comma
  | ':' => some colon
  | _ => none

def isDelimiter (c : Char) : Bool := isBlank c || c == '"' || (mark? c).isSome

def ofWord? (word : List Char) : Option Token :=
  if word = "null".toList then some null
  else if word = "true".toList then some (bool true)
  else if word = "false".toList then some (bool false)
  else (Numeral.ofChars? word).map number

/-- The token of a quoted string with the given content. -/
def ofPieces (pieces : List Text.Piece) : Token := string ((Text.spell? pieces).map String.ofList)

/-- Where a reading stands. What has been read of an unfinished token is kept in reverse. -/
inductive Mode where
  | between
  | word (read : List Char)
  | quoted (read : List Text.Piece)
  | escape (read : List Text.Piece)
  /-- In the four digits of a code unit, some of which have been read. -/
  | unit (read : List Text.Piece) (digits value : Nat)

def start (c : Char) : List Token × Mode :=
  if isBlank c then ([], .between)
  else if c = '"' then ([], .quoted [])
  else match mark? c with
    | some token => ([token], .between)
    | none => ([], .word [c])

/-- Reads one character: the tokens that it completes, and where the reading stands after it. -/
def step : Mode → Char → Option (List Token × Mode)
  | .between, c => some (start c)
  | .word read, c =>
    if isDelimiter c then do
      let token ← ofWord? read.reverse
      let (tokens, mode) := start c
      return (token :: tokens, mode)
    else some ([], .word (c :: read))
  | .quoted read, c =>
    if c = '"' then some ([ofPieces read.reverse], .between)
    else if c = '\\' then some ([], .escape read)
    else if c.toNat < 0x20 then none
    else some ([], .quoted (.char c :: read))
  | .escape read, c =>
    if c = 'u' then some ([], .unit read 0 0)
    else (Text.escaped? c).map fun d => ([], .quoted (.char d :: read))
  | .unit read digits value, c => do
    let digit ← Text.hexDigit? c
    let value := 16 * value + digit
    return ([], if digits = 3 then .quoted (.unit value :: read) else .unit read (digits + 1) value)

/-- The tokens that the end of the text completes. -/
def finish : Mode → Option (List Token)
  | .between => some []
  | .word read => (ofWord? read.reverse).map ([·])
  | .quoted _ | .escape _ | .unit _ _ _ => none

/-- The tokens of the rest of a text, read from a given mode. -/
def scan : Mode → List Char → Option (List Token)
  | mode, [] => finish mode
  | mode, c :: cs => do
    let (tokens, mode) ← step mode c
    let rest ← scan mode cs
    return tokens ++ rest

def ofChars? (text : List Char) : Option (List Token) := scan .between text

end Token

end DocQuery.Json
