import DocQuery.Double.Shortest
import DocQuery.Json.Literal
import DocQuery.Value.Display
/-!
The literal that a value is written as. An integer is spelled as one, and the numeral of a double has
a fraction or an exponent.
-/

namespace DocQuery

namespace Decimal

/-- The decimal as positional writing spells it: a whole number with one zero after the point. -/
def pointed (d : Decimal) : Decimal :=
  if 0 ≤ d.exponent then ⟨d.significand * Nat.pow 10 (d.exponent.toNat + 1), -1⟩ else d

def spelled (layout : Layout) (d : Decimal) : Decimal :=
  if layout.leastPositional ≤ d.leading ∧ d.leading < layout.positionalBelow then d.pointed else d

end Decimal

namespace Json.Numeral

def ofInt (n : Int) : Numeral := ⟨decide (n < 0), ⟨n.natAbs, 0⟩, true⟩

/-- The numeral of the finite double at a rank. -/
def ofRank (negative : Bool) (rank : Nat) : Numeral :=
  ⟨negative, (Double.shortest rank).spelled Value.floatLayout, false⟩

end Json.Numeral

namespace Value

mutual

def literal : Value → Json.Literal
  | null => .null
  | bool b => .bool b
  | int n => .number (.ofInt n.toInt)
  | float (.finite negative rank) => .number (.ofRank negative rank)
  | float (.infinite _) | float .nan => .null
  | str s => .string (some s)
  | arr items => .array (itemLiterals items)
  | obj members => .object (memberLiterals members)

def itemLiterals : List Value → List Json.Literal
  | [] => []
  | item :: items => item.literal :: itemLiterals items

def memberLiterals : List (String × Value) → List (Option String × Json.Literal)
  | [] => []
  | (key, value) :: members => (some key, value.literal) :: memberLiterals members

end

end Value

end DocQuery
