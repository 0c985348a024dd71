import DocQuery.Double.Shortest
import DocQuery.Text.Quoted
import DocQuery.Value.Basic
/-!
The compact text of a value. Doubles keep a point or an exponent, so they never look like integers;
NaN and the infinities, which have no written form, are shown as null.
-/

namespace DocQuery.Value

/--
Quotation marks, backslashes and the three common line controls have letter escapes; all other
control characters are written by code, and everything else as it is.
-/
def escaping : Text.Escaping where
  letters := [('"', '"'), ('\\', '\\'), ('\n', 'n'), ('\r', 'r'), ('\t', 't')]
  coded := Text.isControl

/-- Magnitudes from 10⁻⁴ up to but not including 10¹⁶ are written positionally. -/
def floatLayout : Decimal.Layout := ⟨-4, 16⟩

def floatChars : Double → List Char
  | .finite negative rank =>
    (if negative then ['-'] else []) ++ (Double.shortest rank).write floatLayout
  | .infinite _ | .nan => "null".toList

mutual

def chars : Value → List Char
  | null => "null".toList
  | bool b => (if b then "true" else "false").toList
  | int n => (toString n.toInt).toList
  | float x => floatChars x
  | str s => escaping.quote s
  | arr items => '[' :: itemsChars items ++ [']']
  | obj members => '{' :: membersChars members ++ ['}']

def itemsChars : List Value → List Char
  | [] => []
  | [item] => item.chars
  | item :: items => item.chars ++ ',' :: itemsChars items

/-- Members separated by commas, each a quoted key, a colon and a value. -/
def membersChars : List (String × Value) → List Char
  | [] => []
  | [(key, value)] => escaping.quote key ++ ':' :: value.chars
  | (key, value) :: members =>
    escaping.quote key ++ ':' :: value.chars ++ ',' :: membersChars members

end

def display (v : Value) : String := String.ofList v.chars

end DocQuery.Value
