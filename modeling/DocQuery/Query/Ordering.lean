import DocQuery.Double.Rounding
import DocQuery.Error
/-!
The order of values. The expected operand says which numbers are compared: an integer turns the
actual operand into an integer, a double turns it into a double.
-/

namespace DocQuery.Value

/-- A number as an integer, a double losing its fraction. -/
def toInt? : Value → Option Int64
  | int n => some n
  | float x => some x.truncate
  | _ => none

/-- A number as a double, an integer being rounded to the nearest. -/
def toDouble? : Value → Option Double
  | int n => some (Double.ofInt n.toInt)
  | float x => some x
  | _ => none

/--
The order of an actual against an expected operand. Without an order there is `none`, and that
needs NaN.
-/
def order (actual expected : Value) : Except MatchError (Option Ordering) :=
  match expected with
  | int n =>
    match actual.toInt? with
    | some m => .ok (some (compare m.toInt n.toInt))
    | none => .error (.castFailed .int)
  | float y =>
    match actual.toDouble? with
    | some x => .ok (x.compare? y)
    | none => .error (.castFailed .float)
  | _ => .error (.notOrdered expected.kind)

end DocQuery.Value
