import DocQuery.Decimal
import DocQuery.Double.Basic
/-!
Rounding to the nearest double, a tie going to the even rank: of quotients, integers and decimals.
-/

namespace DocQuery.Double

/-- The last rank whose magnitude is at most `units`. -/
def floorRank (units : Nat) : Nat :=
  let spacing := units.log2 - 52
  spacing <<< 52 + units >>> spacing

/-- The rank nearest to `num / den` units. Of two equally near the even one is taken. -/
def nearestRank (num den : Nat) : Nat :=
  let rank := floorRank (num / den)
  match compare (2 * num) ((unitsAt rank + unitsAt (rank + 1)) * den) with
  | .lt => rank
  | .gt => rank + 1
  | .eq => if rank % 2 = 0 then rank else rank + 1

/-- The number at a rank; past the last finite rank it is an infinity. -/
def ofRank (negative : Bool) (rank : Nat) : Double :=
  if h : rank < rankCount then finite negative ⟨rank, h⟩ else infinite negative

/-- The double nearest to a quotient under a sign. -/
def ofRatio (negative : Bool) (num den : Nat) : Double :=
  ofRank negative (nearestRank (num * unitsPerOne) den)

/-- The double nearest to an integer. -/
def ofInt (n : Int) : Double := ofRatio (decide (n < 0)) n.natAbs 1

/--
The double nearest to a decimal under a sign. Powers of ten far outside the range of doubles are
settled from the size of the exponent: at 10³¹⁰ and above a nonzero number is infinite, and below
10⁻³²⁴ it rounds to zero.
-/
def ofDecimal (negative : Bool) (d : Decimal) : Double :=
  if d.significand = 0 then ofRank negative 0
  else if 310 ≤ d.exponent then infinite negative
  else if d.exponent + d.significand.log2 + 1 ≤ -324 then ofRank negative 0
  else ofRatio negative d.num d.den

/-- The distance between magnitudes, in units, follows from the leading bit of a number. -/
theorem spacing_floorRank (units : Nat) : spacing (floorRank units) = units.log2 - 52 := by
  rw [spacing]
  simp only [floorRank, Nat.shiftLeft_eq, Nat.shiftRight_eq_div_pow]
  have hupper := Nat.lt_log2_self (n := units)
  generalize hs : units.log2 - 52 = s
  have hsize : units / 2 ^ s < 9007199254740992 := by
    rw [Nat.div_lt_iff_lt_mul (Nat.two_pow_pos s)]
    refine Nat.lt_of_lt_of_le hupper ?_
    rw [show 9007199254740992 = 2 ^ 53 from rfl, ← Nat.pow_add]
    exact Nat.pow_le_pow_right (by decide) (by omega)
  rw [show 2 ^ 52 = 4503599627370496 from rfl]
  cases s with
  | zero => omega
  | succ k =>
    -- above the lowest binade the leading bit is in place
    have hlog : units.log2 = k + 53 := by omega
    have hpos : units ≠ 0 := by
      intro h
      rw [h, Nat.log2_zero] at hlog
      omega
    have hlead : 4503599627370496 ≤ units / 2 ^ (k + 1) := by
      rw [Nat.le_div_iff_mul_le (Nat.two_pow_pos _), show 4503599627370496 = 2 ^ 52 from rfl,
        ← Nat.pow_add, show 52 + (k + 1) = units.log2 by omega]
      exact Nat.log2_self_le hpos
    omega

/-- Below a number of units, the nearest magnitude is what is left without the low bits. -/
theorem unitsAt_floorRank_eq (units : Nat) :
    unitsAt (floorRank units) = units >>> (units.log2 - 52) <<< (units.log2 - 52) := by
  rw [unitsAt, spacing_floorRank]
  simp only [floorRank, Nat.add_sub_cancel_left]

/-- The last rank at or below a number of units: the next one is above it. -/
theorem unitsAt_floorRank (units : Nat) :
    unitsAt (floorRank units) ≤ units ∧ units < unitsAt (floorRank units + 1) := by
  rw [unitsAt_succ, spacing_floorRank, unitsAt_floorRank_eq]
  simp only [Nat.shiftLeft_eq, Nat.shiftRight_eq_div_pow, Nat.one_mul]
  refine ⟨Nat.div_mul_le_self _ _, ?_⟩
  have hdiv := Nat.div_add_mod' units (2 ^ (units.log2 - 52))
  have hmod := Nat.mod_lt units (Nat.two_pow_pos (units.log2 - 52))
  omega

/-- A magnitude is found again from its units. -/
theorem floorRank_unitsAt (rank : Nat) : floorRank (unitsAt rank) = rank := by
  obtain ⟨hle, hlt⟩ := unitsAt_floorRank (unitsAt rank)
  have hupper : rank < floorRank (unitsAt rank) + 1 := lt_of_unitsAt_lt hlt
  have hlower : floorRank (unitsAt rank) < rank + 1 :=
    lt_of_unitsAt_lt (Nat.lt_of_le_of_lt hle (unitsAt_lt (Nat.lt_succ_self rank)))
  omega

/-- A magnitude that is given exactly is not moved. -/
theorem nearestRank_unitsAt (rank : Nat) {den : Nat} (h : 0 < den) :
    nearestRank (unitsAt rank * den) den = rank := by
  have hlt : 2 * (unitsAt rank * den) < (unitsAt rank + unitsAt (rank + 1)) * den := by
    rw [← Nat.mul_assoc, Nat.two_mul]
    exact Nat.mul_lt_mul_of_pos_right
      (Nat.add_lt_add_left (unitsAt_lt (Nat.lt_succ_self rank)) _) h
  simp only [nearestRank, Nat.mul_div_cancel _ h, floorRank_unitsAt, Nat.compare_eq_lt.mpr hlt]

end DocQuery.Double
