import DocQuery.Decimal
import DocQuery.Double.Basic
import Mathlib
/-!
The double nearest to an exact number.
-/

namespace DocQuery

/-- The value of a decimal under a sign. -/
def Decimal.toRat (negative : Bool) (d : Decimal) : ℚ :=
  Double.signed negative d.significand * 10 ^ d.exponent

namespace Double

/-- Its rank is even. An infinity has the even rank past the largest finite magnitude. -/
def IsEven : Double → Prop
  | finite _ rank => rank.val % 2 = 0
  | infinite _ => True
  | nan => False

/--
No double is nearer to the number than this one, and if another one is as near, this one is even. An
infinity counts as the magnitude that its rank would have, one past the largest finite magnitude.
-/
def IsNearest (x : Double) (q : ℚ) : Prop :=
  ∃ own : Int, x.units? = some own ∧ ∀ (y : Double) (other : Int), y.units? = some other →
    |own - q * unitsPerOne| ≤ |other - q * unitsPerOne| ∧
      (|own - q * unitsPerOne| = |other - q * unitsPerOne| → other = own ∨ x.IsEven)

end Double

end DocQuery
