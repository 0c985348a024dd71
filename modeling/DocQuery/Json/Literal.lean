import DocQuery.Json.Token
/-!
Literals: JSON as it is written, with numbers spelled and members in the order and number in which
they appear. A literal is built from tokens by a machine that keeps a stack of open containers.
-/

namespace DocQuery.Json

inductive Literal where
  | null
  | bool (b : Bool)
  | number (n : Numeral)
  | string (content : Option String)
  | array (items : List Literal)
  | object (members : List (Option String × Literal))
  deriving Inhabited

namespace Literal

/-- A container whose next item or member value is being read; what it holds is in reverse. -/
inductive Frame where
  | array (items : List Literal)
  | object (members : List (Option String × Literal)) (key : Option String)

/-- What has to come next, inside the open containers. -/
inductive State where
  | value (frames : List Frame)
  /-- The first item of an array, or its end. -/
  | item (frames : List Frame)
  /-- The first key of an object, or its end. -/
  | member (frames : List Frame)
  | key (frames : List Frame) (members : List (Option String × Literal))
  | colon (frames : List Frame) (members : List (Option String × Literal)) (key : Option String)
  /-- A comma or the end of a container: a value has just been read. -/
  | after (frames : List Frame) (last : Literal)

def begin? (frames : List Frame) : Token → Option State
  | .beginArray => some (.item frames)
  | .beginObject => some (.member frames)
  | .null => some (.after frames .null)
  | .bool b => some (.after frames (.bool b))
  | .number n => some (.after frames (.number n))
  | .string content => some (.after frames (.string content))
  | .endArray | .endObject | .comma | .colon => none

def step : State → Token → Option State
  | .value frames, token => begin? frames token
  | .item frames, .endArray => some (.after frames (.array []))
  | .item frames, token => begin? (.array [] :: frames) token
  | .member frames, .endObject => some (.after frames (.object []))
  | .member frames, .string key => some (.colon frames [] key)
  | .key frames members, .string key => some (.colon frames members key)
  | .colon frames members key, .colon => some (.value (.object members key :: frames))
  | .after (.array items :: frames) last, .comma => some (.value (.array (last :: items) :: frames))
  | .after (.array items :: frames) last, .endArray =>
    some (.after frames (.array (last :: items).reverse))
  | .after (.object members key :: frames) last, .comma =>
    some (.key frames ((key, last) :: members))
  | .after (.object members key :: frames) last, .endObject =>
    some (.after frames (.object ((key, last) :: members).reverse))
  | _, _ => none

def run : State → List Token → Option State
  | state, [] => some state
  | state, token :: tokens => (step state token).bind fun state => run state tokens

/-- The literal that tokens spell, if they spell just one. -/
def ofTokens? (tokens : List Token) : Option Literal :=
  match run (.value []) tokens with
  | some (.after [] literal) => some literal
  | _ => none

def ofText? (text : String) : Option Literal := (Token.ofChars? text.toList).bind ofTokens?

end Literal

end DocQuery.Json
