import DocQuery.Query.Ordering
import DocQuery.Value.Display
import DocQuery.Value.Equality
/-!
The actual operand of a comparator: a value that has been looked up, or the document itself, which
is compared as an object without being made one.
-/

namespace DocQuery.Query

inductive Operand where
  | value (v : Value)
  | document (members : Document)

instance : Coe Value Operand := ⟨.value⟩

namespace Operand

/-- A document equals nothing but an object. -/
def equals : Operand → Value → Bool
  | value v, expected => v.equals expected
  | document members, .obj others => Value.equalMembers members others
  | document _, _ => false

def display : Operand → String
  | value v => v.display
  | document members => String.ofList ('{' :: Value.membersChars members ++ ['}'])

/-- A document is no number, so it has no order in either domain. -/
def order : Operand → Value → Except MatchError (Option Ordering)
  | value v, expected => v.order expected
  | document _, .int _ => .error (.castFailed .int)
  | document _, .float _ => .error (.castFailed .float)
  | document _, expected => .error (.notOrdered expected.kind)

/-- A document is compared and shown as the object that it would make. -/
theorem equals_document (members : Document) (expected : Value) :
    (document members).equals expected = (value (.obj members)).equals expected := by
  cases expected <;> simp only [equals, Value.equals]

theorem display_document (members : Document) :
    (document members).display = (value (.obj members)).display := by
  simp only [display, Value.display, Value.chars]

theorem order_document (members : Document) (expected : Value) :
    (document members).order expected = (value (.obj members)).order expected := by
  cases expected <;> rfl

end Operand

end DocQuery.Query
