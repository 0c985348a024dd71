import DocQuery.Value.Basic
import Mathlib.Algebra.Order.Field.Rat
import Mathlib.Order.WithBot
/-!
Numbers by their exact value: integers and finite doubles are fractions, and the infinities stand
below and above all of those. NaN has no value.
-/

namespace DocQuery

/-- The fractions, with a least and a greatest element added. -/
abbrev Exact := WithBot (WithTop ℚ)

def Exact.ofRat (q : ℚ) : Exact := ((q : WithTop ℚ) : Exact)

/-- An infinity, or a fraction that is an integer. -/
def Exact.IsWhole (x : Exact) : Prop := x = ⊥ ∨ x = ⊤ ∨ ∃ n : ℤ, x = .ofRat n

def Double.exactValue? : Double → Option Exact
  | .nan => none
  | .infinite negative => some (if negative then ⊥ else ⊤)
  | .finite negative rank => some (.ofRat (signed negative (unitsAt rank) / unitsPerOne))

namespace Value

/-- The exact value of a number of either kind. -/
def exactValue? : Value → Option Exact
  | int n => some (.ofRat n.toInt)
  | float x => x.exactValue?
  | null | bool _ | str _ | arr _ | obj _ => none

end Value

/-- Less comes before equal, and equal before greater. -/
def AtMost (first second : Ordering) : Prop := first = .lt ∨ first = second ∨ second = .gt

instance : DecidableRel AtMost := fun _ _ => inferInstanceAs (Decidable (_ ∨ _ ∨ _))

/-- What is greater or not less stays so further on, and what is less or not greater was so before. -/
theorem AtMost.tests {first second : Ordering} (h : AtMost first second) :
    (first.isGT → second.isGT) ∧ (first.isGE → second.isGE) ∧
      (second.isLT → first.isLT) ∧ (second.isLE → first.isLE) := by
  rcases h with rfl | rfl | rfl <;> simp

end DocQuery
