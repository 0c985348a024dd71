import DocQuery.Double.Rounding
/-!
The shortest decimal of a double: the coarsest power-of-ten grid that has a point which reads back
as the double, and on that grid the point nearest to it.
-/

namespace DocQuery.Double

/-- The decimal rounds to the magnitude at this rank. -/
def readsBack (rank : Nat) (d : Decimal) : Bool :=
  nearestRank (d.num * unitsPerOne) d.den == rank

/--
The point of the grid `10 ^ exponent` that stands for a magnitude: of its two neighbours there, the
nearer of those that read back. Of two equally near the greater is taken.
-/
def onGrid (rank : Nat) (exponent : Int) : Option Decimal :=
  let num := unitsAt rank * Nat.pow 10 (-exponent).toNat
  let den := unitsPerOne * Nat.pow 10 exponent.toNat
  let below : Decimal := ⟨num / den, exponent⟩
  let above : Decimal := ⟨num / den + 1, exponent⟩
  let byDistance :=
    if 2 * num < (2 * (num / den) + 1) * den then [below, above] else [above, below]
  byDistance.find? (readsBack rank)

/--
The first grid with a hit, from `10 ^ (fineness - 1074)` downward. The search ends at the latest on
the grid of 10⁻¹⁰⁷⁴, where every magnitude lies exactly.
-/
def shortestFrom (rank : Nat) : Nat → Decimal
  | 0 => ⟨unitsAt rank * Nat.pow 5 1074, -1074⟩
  | fineness + 1 => (onGrid rank (fineness + 1 - 1074 : Int)).getD (shortestFrom rank fineness)

/-- A power of ten above the magnitude at a rank, counted from 10⁻¹⁰⁷⁴. -/
def coarsest (rank : Nat) : Nat :=
  ((((unitsAt rank).log2 + 1 - 1074 : Int) * 30103).ediv 100000 + 1076).toNat

/-- The decimal with the fewest digits that reads back as the magnitude at this rank. -/
def shortest (rank : Nat) : Decimal :=
  if rank = 0 then ⟨0, 0⟩ else shortestFrom rank (coarsest rank)

end DocQuery.Double
