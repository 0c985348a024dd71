import DocQuery.Proofs.Rounding
import DocQuery.Query.Ordering
import Mathlib

/-! An ordering brings the actual operand into the domain of the expected one. However much that
blurs, it is monotone and leaves the expected operand where it is, so numbers in order never come
out in the opposite order. -/

namespace DocQuery

namespace Double

theorem unitsPerOne_pos : 0 < unitsPerOne := by decide +kernel

/-- The nearest magnitude to a number of units, in units. What is past all finite magnitudes is
taken for an infinity. -/
def roundedMagnitude (units : Nat) : Nat := unitsAt (min (nearestRank units 1) rankCount)

/-- The nearest double to a number of units, in units. -/
def rounded (units : Int) : Int :=
  if units < 0 then -(roundedMagnitude units.natAbs : Int) else roundedMagnitude units.natAbs

theorem unitsAt_le {a b : Nat} (h : a ≤ b) : unitsAt a ≤ unitsAt b := by
  rcases Nat.lt_or_eq_of_le h with hlt | rfl
  · exact Nat.le_of_lt (unitsAt_lt hlt)
  · exact Nat.le_refl _

theorem roundedMagnitude_le {units others : Nat} (h : units ≤ others) :
    roundedMagnitude units ≤ roundedMagnitude others := by
  have hrank := nearestRank_le_nearestRank h 1
  apply unitsAt_le
  omega

theorem monotone_rounded : Monotone rounded := by
  intro units others h
  unfold rounded
  split
  · split
    · -- below zero the greater magnitude is the lesser number
      have hmagnitude : roundedMagnitude others.natAbs ≤ roundedMagnitude units.natAbs :=
        roundedMagnitude_le (by omega)
      omega
    · omega
  · have hmagnitude : roundedMagnitude units.natAbs ≤ roundedMagnitude others.natAbs :=
      roundedMagnitude_le (by omega)
    rw [if_neg (by omega)]
    omega

theorem roundedMagnitude_unitsAt {rank : Nat} (h : rank ≤ rankCount) :
    roundedMagnitude (unitsAt rank) = unitsAt rank := by
  have hrank : nearestRank (unitsAt rank) 1 = rank := by
    have hexact := nearestRank_unitsAt rank Nat.one_pos
    rwa [Nat.mul_one] at hexact
  rw [roundedMagnitude, hrank, Nat.min_eq_left h]

theorem rounded_signed (negative : Bool) {rank : Nat} (h : rank ≤ rankCount) :
    rounded (signed negative (unitsAt rank)) = signed negative (unitsAt rank) := by
  have hmagnitude := roundedMagnitude_unitsAt h
  cases negative with
  | false =>
    have hpos : ¬ ((unitsAt rank : Nat) : Int) < 0 := by omega
    simp only [signed, rounded, Bool.false_eq_true, if_false, if_neg hpos, Int.natAbs_natCast,
      hmagnitude]
  | true =>
    simp only [signed, rounded, if_true, Int.natAbs_neg, Int.natAbs_natCast, hmagnitude]
    split <;> omega

/-- A double is its own nearest double. -/
theorem rounded_of_units? {x : Double} {units : Int} (h : x.units? = some units) :
    rounded units = units := by
  cases x with
  | nan => cases h
  | infinite negative =>
    cases h
    exact rounded_signed negative (Nat.le_refl _)
  | finite negative rank =>
    cases h
    exact rounded_signed negative (Nat.le_of_lt rank.isLt)

theorem units?_ofRank (negative : Bool) (rank : Nat) :
    (ofRank negative rank).units? = some (signed negative (unitsAt (min rank rankCount))) := by
  unfold ofRank
  split
  · rename_i h
    rw [Nat.min_eq_left (Nat.le_of_lt h)]
    rfl
  · rename_i h
    rw [Nat.min_eq_right (Nat.le_of_not_lt h)]
    rfl

theorem units?_ofInt (n : Int) : (ofInt n).units? = some (rounded (n * unitsPerOne)) := by
  have hpos : (0 : Int) < unitsPerOne := Int.natCast_pos.mpr unitsPerOne_pos
  have hmagnitude : (n * unitsPerOne).natAbs = n.natAbs * unitsPerOne := by
    rw [Int.natAbs_mul, Int.natAbs_natCast]
  have hsign : n * unitsPerOne < 0 ↔ n < 0 := by
    have hscaled := Int.mul_lt_mul_right hpos (b := n) (c := 0)
    rwa [Int.zero_mul] at hscaled
  rw [ofInt, ofRatio, units?_ofRank, rounded, hmagnitude]
  simp only [hsign, signed, roundedMagnitude, decide_eq_true_eq]

/-- The whole part of a number of units, clamped to the range of integers. -/
def wholePart (units : Int) : Int := (Int64.ofIntClamp (units.tdiv unitsPerOne)).toInt

theorem toInt_ofIntClamp_eq (i : Int) :
    (Int64.ofIntClamp i).toInt = max Int64.minValue.toInt (min i Int64.maxValue.toInt) := by
  have hbounds : Int64.minValue.toInt ≤ Int64.maxValue.toInt := by decide
  unfold Int64.ofIntClamp
  split
  · split
    · rw [Int64.toInt_ofIntLE]
      omega
    · omega
  · omega

theorem monotone_wholePart : Monotone wholePart := by
  intro units others h
  have hpos : (0 : Int) < unitsPerOne := Int.natCast_pos.mpr unitsPerOne_pos
  have hquotient : units.tdiv unitsPerOne ≤ others.tdiv unitsPerOne := Int.tdiv_le_tdiv hpos h
  unfold wholePart
  rw [toInt_ofIntClamp_eq, toInt_ofIntClamp_eq]
  omega

/-- An integer is its own whole part. -/
theorem wholePart_mul (n : Int64) : wholePart (n.toInt * unitsPerOne) = n.toInt := by
  have hne : (unitsPerOne : Int) ≠ 0 := Int.natCast_ne_zero.mpr (Nat.ne_of_gt unitsPerOne_pos)
  have hlow := Int64.minValue_le_toInt n
  have hhigh := Int64.toInt_le n
  rw [wholePart, Int.mul_tdiv_cancel _ hne, toInt_ofIntClamp_eq]
  omega

end Double

namespace Value

/-- The exact value of a number in units, an infinity being past all finite numbers. -/
def units? : Value → Option Int
  | int n => some (n.toInt * Double.unitsPerOne)
  | float x => x.units?
  | null | bool _ | str _ | arr _ | obj _ => none

/-- In the domain of integers a number counts by its whole part. -/
theorem toInt?_of_units? {v : Value} {units : Int} (h : v.units? = some units) :
    ∃ n, v.toInt? = some n ∧ n.toInt = Double.wholePart units := by
  cases v with
  | int n =>
    cases h
    exact ⟨n, rfl, (Double.wholePart_mul n).symm⟩
  | float x =>
    refine ⟨x.truncate, rfl, ?_⟩
    unfold Double.truncate
    rw [show x.units? = some units from h]
    rfl
  | null | bool | str | arr | obj => cases h

/-- In the domain of doubles a number counts as the nearest of them. -/
theorem toDouble?_of_units? {v : Value} {units : Int} (h : v.units? = some units) :
    ∃ x, v.toDouble? = some x ∧ x.units? = some (Double.rounded units) := by
  cases v with
  | int n =>
    cases h
    exact ⟨_, rfl, Double.units?_ofInt n.toInt⟩
  | float x =>
    have hunits : x.units? = some units := h
    rw [← Double.rounded_of_units? hunits] at hunits
    exact ⟨x, rfl, hunits⟩
  | null | bool | str | arr | obj => cases h

/-- Against an integer a number is ordered by its whole part. -/
theorem order_int_of_units? (n : Int64) {actual : Value} {units : Int}
    (h : actual.units? = some units) :
    actual.order (int n) = .ok (some (compare (Double.wholePart units) n.toInt)) := by
  obtain ⟨m, hm, hwhole⟩ := toInt?_of_units? h
  simp only [order, hm, hwhole]

/-- Against a double a number is ordered by its nearest double. -/
theorem order_float_of_units? {y : Double} {bound : Int} (hbound : y.units? = some bound)
    {actual : Value} {units : Int} (h : actual.units? = some units) :
    actual.order (float y) = .ok (some (compare (Double.rounded units) bound)) := by
  obtain ⟨x, hx, hrounded⟩ := toDouble?_of_units? h
  simp only [order, hx, Double.compare?, hrounded, hbound]
  rfl

/-- Numbers are ordered against a number after both have been blurred by one monotone function,
which is up to the expected operand. -/
theorem exists_monotone_order {expected : Value} {bound : Int}
    (hbound : expected.units? = some bound) :
    ∃ blur : Int → Int, Monotone blur ∧ ∀ {actual : Value} {units : Int},
      actual.units? = some units →
        actual.order expected = .ok (some (compare (blur units) (blur bound))) := by
  cases expected with
  | int n =>
    refine ⟨Double.wholePart, Double.monotone_wholePart, ?_⟩
    intro actual units hactual
    cases hbound
    -- an expected integer has no fraction to lose
    rw [order_int_of_units? n hactual, Double.wholePart_mul]
  | float y =>
    refine ⟨Double.rounded, Double.monotone_rounded, ?_⟩
    intro actual units hactual
    have hy : y.units? = some bound := hbound
    rw [order_float_of_units? hy hactual, Double.rounded_of_units? hy]
  | null | bool | str | arr | obj => cases hbound

end Value

end DocQuery
