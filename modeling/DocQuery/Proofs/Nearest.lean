import DocQuery.Double.Nearest
import DocQuery.Proofs.Monotone

/-! A decimal is rounded to the nearest double, and of two equally near to the even one. There is only
one such double. -/

namespace DocQuery

theorem Double.signed_mul (negative : Bool) (n m : Nat) :
    (signed negative (n * m) : ℚ) = signed negative n * m := by
  cases negative <;> simp [signed]

theorem Decimal.ten_zpow (exponent : Int) :
    (10 : ℚ) ^ exponent = Nat.pow 10 exponent.toNat / Nat.pow 10 (-exponent).toNat := by
  obtain ⟨n, rfl | rfl⟩ := exponent.eq_nat_or_neg
  · simp
  · simp

theorem Decimal.toRat_eq (negative : Bool) (d : Decimal) :
    d.toRat negative = Double.signed negative d.num / d.den := by
  rw [toRat, num, den, Double.signed_mul, ten_zpow, mul_div_assoc]

namespace Double

/-- Twice the midpoint decides between the two ranks around a quotient, and on it the even one is
taken. -/
theorem nearestRank_cases (num den : Nat) :
    (nearestRank num den = floorRank (num / den) ∧ 2 * num < twiceMidpoint num den) ∨
    (nearestRank num den = floorRank (num / den) + 1 ∧ twiceMidpoint num den < 2 * num) ∨
    ((nearestRank num den = floorRank (num / den) ∨
        nearestRank num den = floorRank (num / den) + 1) ∧
      2 * num = twiceMidpoint num den ∧ nearestRank num den % 2 = 0) := by
  rcases Nat.lt_trichotomy (2 * num) (twiceMidpoint num den) with hbelow | htie | habove
  · exact Or.inl ⟨nearestRank_of_below hbelow, hbelow⟩
  · have hcompare : compare (2 * num) (twiceMidpoint num den) = .eq := Nat.compare_eq_eq.mpr htie
    unfold twiceMidpoint at hcompare
    refine Or.inr (Or.inr ?_)
    simp only [nearestRank, hcompare]
    split <;> omega
  · exact Or.inr (Or.inl ⟨nearestRank_of_above habove, habove⟩)

/-- How far a magnitude is from a number of units, the number given as a quotient and the distance
times its denominator. -/
def distance (num den rank : Nat) : Nat := ((unitsAt rank * den : Nat) - num : Int).natAbs

/-- The other rank is not nearer to the quotient, and if it is another and as near, this one is even. -/
def Preferred (num den own other : Nat) : Prop :=
  distance num den own ≤ distance num den other ∧
    (distance num den own = distance num den other → other = own ∨ own % 2 = 0)

theorem unitsAt_mul_le {a b den : Nat} (h : a ≤ b) : unitsAt a * den ≤ unitsAt b * den :=
  Nat.mul_le_mul_right den (unitsAt_le h)

theorem unitsAt_mul_lt {a b den : Nat} (hden : 0 < den) (h : a < b) :
    unitsAt a * den < unitsAt b * den :=
  Nat.mul_lt_mul_of_pos_right (unitsAt_lt h) hden

/-- The magnitudes around a quotient. -/
theorem floorRank_bounds (num : Nat) {den : Nat} (hden : 0 < den) :
    unitsAt (floorRank (num / den)) * den ≤ num ∧
      num < unitsAt (floorRank (num / den) + 1) * den := by
  obtain ⟨hbelow, habove⟩ := unitsAt_floorRank (num / den)
  exact ⟨(Nat.le_div_iff_mul_le hden).mp hbelow, (Nat.div_lt_iff_lt_mul hden).mp habove⟩

/-- No magnitude is nearer than that of the nearest rank, and on a tie that rank is even. -/
theorem preferred_nearestRank (num : Nat) {den : Nat} (hden : 0 < den) (other : Nat) :
    Preferred num den (nearestRank num den) other := by
  have hcases := nearestRank_cases num den
  obtain ⟨hbelow, habove⟩ := floorRank_bounds num hden
  rw [twiceMidpoint, Nat.add_mul] at hcases
  unfold Preferred distance
  generalize floorRank (num / den) = floor at *
  -- any other magnitude is beyond one of the two around the quotient
  have hside : (other < floor ∧ unitsAt other * den < unitsAt floor * den) ∨ other = floor ∨
      other = floor + 1 ∨
      (floor + 1 < other ∧ unitsAt (floor + 1) * den < unitsAt other * den) := by
    rcases Nat.lt_trichotomy other floor with hlt | heq | hgt
    · exact Or.inl ⟨hlt, unitsAt_mul_lt hden hlt⟩
    · exact Or.inr (Or.inl heq)
    · rcases Nat.lt_or_eq_of_le hgt with hlt | heq
      · exact Or.inr (Or.inr (Or.inr ⟨hlt, unitsAt_mul_lt hden hlt⟩))
      · exact Or.inr (Or.inr (Or.inl heq.symm))
  rcases hcases with ⟨hrank, hmid⟩ | ⟨hrank, hmid⟩ | ⟨hrank | hrank, hmid, heven⟩ <;>
    rw [hrank] <;> rcases hside with ⟨_, hother⟩ | rfl | rfl | ⟨_, hother⟩ <;> omega

/-- The same among the ranks up to an even limit, what is past it being taken for the limit. -/
theorem preferred_clamped (num : Nat) {den : Nat} (hden : 0 < den) {limit other : Nat}
    (heven : limit % 2 = 0) (hother : other ≤ limit) :
    Preferred num den (min (nearestRank num den) limit) other := by
  rcases Nat.le_or_ge (nearestRank num den) limit with hwithin | hpast
  · rw [Nat.min_eq_left hwithin]
    exact preferred_nearestRank num hden other
  · -- all ranks in question are at most as great as the quotient or its nearest magnitude
    rw [Nat.min_eq_right hpast]
    refine ⟨?_, fun _ => Or.inr heven⟩
    rcases Nat.lt_or_eq_of_le hpast with hlt | heq
    · have hfloor := nearestRank_le_floorRank_succ num den
      have hlimit : unitsAt limit * den ≤ num :=
        (unitsAt_mul_le (by omega)).trans (floorRank_bounds num hden).1
      have hless : unitsAt other * den ≤ unitsAt limit * den := unitsAt_mul_le hother
      unfold distance
      omega
    · rw [heq]
      exact (preferred_nearestRank num hden other).1

theorem exists_rank_of_units? {y : Double} {other : Int} (h : y.units? = some other) :
    ∃ negative rank, rank ≤ rankCount ∧ other = signed negative (unitsAt rank) ∧
      (y.IsEven → rank % 2 = 0) := by
  cases y with
  | nan => cases h
  | infinite negative =>
    exact ⟨negative, rankCount, Nat.le_refl _, (Option.some.inj h).symm, fun _ => by decide⟩
  | finite negative rank =>
    exact ⟨negative, rank, Nat.le_of_lt rank.isLt, (Option.some.inj h).symm, id⟩

/-- Under one sign the distance is that of the magnitudes. -/
theorem natAbs_signed_sub (negative : Bool) (num den rank : Nat) :
    (signed negative (unitsAt rank) * den - signed negative num).natAbs = distance num den rank := by
  unfold distance signed
  cases negative with
  | true =>
    simp only [if_true, Int.neg_mul, Int.natCast_mul]
    omega
  | false => simp only [Bool.false_eq_true, if_false, Int.natCast_mul]

/-- On the other side of zero the distances add up. -/
theorem natAbs_signed_sub_of_ne {sign negative : Bool} (h : sign ≠ negative) (num den rank : Nat) :
    (signed sign (unitsAt rank) * den - signed negative num).natAbs = unitsAt rank * den + num := by
  unfold signed
  cases sign with
  | true =>
    have hnegative : negative = false := Bool.eq_false_iff.mpr (Ne.symm h)
    simp only [hnegative, Bool.false_eq_true, if_true, if_false, Int.neg_mul, ← Int.natCast_mul]
    omega
  | false =>
    have hnegative : negative = true := Bool.eq_true_of_not_eq_false (Ne.symm h)
    simp only [hnegative, Bool.false_eq_true, if_true, if_false, ← Int.natCast_mul]
    omega

/-- With signs: on the side of the number the magnitudes decide, and on the other side no double is
nearer than zero. -/
theorem distance_signed (negative : Bool) (num : Nat) {den : Nat} (hden : 0 < den)
    {limit rank : Nat} (heven : limit % 2 = 0) (hrank : rank ≤ limit) (sign : Bool) :
    distance num den (min (nearestRank num den) limit) ≤
        (signed sign (unitsAt rank) * den - signed negative num).natAbs ∧
      (distance num den (min (nearestRank num den) limit) =
          (signed sign (unitsAt rank) * den - signed negative num).natAbs →
        signed sign (unitsAt rank) = signed negative (unitsAt (min (nearestRank num den) limit)) ∨
          min (nearestRank num den) limit % 2 = 0) := by
  by_cases hsign : sign = negative
  · obtain ⟨hle, htie⟩ := preferred_clamped num hden heven hrank
    rw [hsign, natAbs_signed_sub]
    refine ⟨hle, fun heq => (htie heq).imp_left fun hother => ?_⟩
    rw [hother]
  · obtain ⟨hzero, hzerotie⟩ := preferred_clamped num hden heven (Nat.zero_le limit)
    have horigin : distance num den 0 = num := by
      have hunits : unitsAt 0 = 0 := rfl
      rw [distance, hunits]
      omega
    rw [natAbs_signed_sub_of_ne hsign]
    rw [horigin] at hzero hzerotie
    refine ⟨by omega, fun heq => Or.inr ?_⟩
    -- as near as across zero is as near as zero
    rcases hzerotie (by omega) with hown | hown <;> omega

/-- The distance to a quotient in units, over its denominator. -/
theorem abs_sub_mul_unitsPerOne (negative : Bool) (num : Nat) {den : Nat} (hden : 0 < den)
    (units : Int) :
    |(units : ℚ) - (signed negative num / den : ℚ) * unitsPerOne| =
      ((units * den - signed negative (num * unitsPerOne)).natAbs : ℚ) / den := by
  have hpos : (0 : ℚ) < den := Nat.cast_pos.mpr hden
  have hscaled : (units : ℚ) - (signed negative num / den : ℚ) * unitsPerOne =
      ((units * den - signed negative (num * unitsPerOne) : Int) : ℚ) / den := by
    push_cast
    rw [signed_mul]
    field_simp
  rw [hscaled, abs_div, abs_of_pos hpos, Nat.cast_natAbs, Int.cast_abs]

theorem isEven_ofRank (negative : Bool) {rank : Nat} (h : min rank rankCount % 2 = 0) :
    (ofRank negative rank).IsEven := by
  unfold ofRank
  split
  · rename_i hfinite
    rwa [Nat.min_eq_left (Nat.le_of_lt hfinite)] at h
  · exact trivial

/-- A quotient is rounded to the nearest double. -/
theorem isNearest_ofRatio (negative : Bool) (num : Nat) {den : Nat} (hden : 0 < den) :
    (ofRatio negative num den).IsNearest (signed negative num / den) := by
  have hpos : (0 : ℚ) < den := Nat.cast_pos.mpr hden
  refine ⟨_, units?_ofRank negative _, fun y other hother => ?_⟩
  obtain ⟨sign, rank, hrank, rfl, -⟩ := exists_rank_of_units? hother
  have hlimit : rankCount % 2 = 0 := by decide
  obtain ⟨hle, htie⟩ := distance_signed negative (num * unitsPerOne) hden hlimit hrank sign
  rw [abs_sub_mul_unitsPerOne negative num hden, abs_sub_mul_unitsPerOne negative num hden,
    natAbs_signed_sub, div_le_div_iff_of_pos_right hpos, div_left_inj' hpos.ne', Nat.cast_le,
    Nat.cast_inj]
  exact ⟨hle, fun heq => (htie heq).imp_right (isEven_ofRank negative)⟩

/-- A decimal is rounded to the double nearest to its value. -/
theorem isNearest_ofDecimal (negative : Bool) (d : Decimal) :
    (ofDecimal negative d).IsNearest (d.toRat negative) := by
  rw [ofDecimal_eq_ofRatio, Decimal.toRat_eq]
  exact isNearest_ofRatio negative d.num d.den_pos

theorem isNearest_ofInt (n : Int) : (ofInt n).IsNearest n := by
  have hsigned : signed (decide (n < 0)) n.natAbs = n := by
    unfold signed
    simp only [decide_eq_true_eq]
    split <;> omega
  have hnearest := isNearest_ofRatio (decide (n < 0)) n.natAbs Nat.one_pos
  rwa [hsigned, Nat.cast_one, div_one] at hnearest

/-- The magnitudes on both sides of zero, by ranks with signs. -/
def signedUnits (rank : Int) : Int := signed (decide (rank < 0)) (unitsAt rank.natAbs)

theorem strictMono_signedUnits : StrictMono signedUnits := by
  intro rank other h
  have hzero : unitsAt 0 = 0 := rfl
  unfold signedUnits signed
  simp only [decide_eq_true_eq]
  by_cases hother : other < 0
  · have hlt : unitsAt other.natAbs < unitsAt rank.natAbs := unitsAt_lt (by omega)
    rw [if_pos hother, if_pos (by omega)]
    omega
  · rw [if_neg hother]
    by_cases hrank : rank < 0
    · have hpos : unitsAt 0 < unitsAt rank.natAbs := unitsAt_lt (by omega)
      rw [if_pos hrank]
      omega
    · have hlt : unitsAt rank.natAbs < unitsAt other.natAbs := unitsAt_lt (by omega)
      rw [if_neg hrank]
      omega

theorem signedUnits_signed (negative : Bool) (rank : Nat) :
    signedUnits (signed negative rank) = signed negative (unitsAt rank) := by
  have hzero : unitsAt 0 = 0 := rfl
  cases negative with
  | false =>
    have hsign : ¬ ((rank : Int) < 0) := by omega
    simp only [signedUnits, signed, Bool.false_eq_true, if_false, decide_eq_true_eq, if_neg hsign,
      Int.natAbs_natCast]
  | true =>
    rcases Nat.eq_zero_or_pos rank with rfl | hpos
    · rfl
    · have hsign : -(rank : Int) < 0 := by omega
      simp only [signedUnits, signed, if_true, decide_eq_true_eq, if_pos hsign, Int.natAbs_neg,
        Int.natAbs_natCast]

theorem exists_signedUnits {x : Double} {own : Int} (h : x.units? = some own) :
    ∃ rank : Int, rank.natAbs ≤ rankCount ∧ own = signedUnits rank ∧ (x.IsEven → rank % 2 = 0) := by
  obtain ⟨negative, rank, hrank, rfl, heven⟩ := exists_rank_of_units? h
  refine ⟨signed negative rank, ?_, (signedUnits_signed negative rank).symm, fun hx => ?_⟩
  · cases negative <;> simpa [signed] using hrank
  · have hrankeven := heven hx
    cases negative <;> simp only [signed, Bool.false_eq_true, if_true, if_false] <;> omega

theorem exists_units?_eq_signedUnits {rank : Int} (h : rank.natAbs ≤ rankCount) :
    ∃ x : Double, x.units? = some (signedUnits rank) := by
  refine ⟨ofRank (decide (rank < 0)) rank.natAbs, ?_⟩
  rw [units?_ofRank, Nat.min_eq_left h]
  rfl

/-- Between two even doubles there is an odd one. -/
theorem exists_between {x y : Double} {own other : Int} (hx : x.units? = some own)
    (hy : y.units? = some other) (hxeven : x.IsEven) (hyeven : y.IsEven) (h : own < other) :
    ∃ (z : Double) (between : Int), z.units? = some between ∧ own < between ∧ between < other := by
  obtain ⟨rank, hrank, rfl, heven⟩ := exists_signedUnits hx
  obtain ⟨last, hlast, rfl, hlasteven⟩ := exists_signedUnits hy
  have hlt : rank < last := strictMono_signedUnits.lt_iff_lt.mp h
  have hnext : rank + 1 < last := by
    have hfirst := heven hxeven
    have hsecond := hlasteven hyeven
    omega
  have hwithin : (rank + 1).natAbs ≤ rankCount := by omega
  obtain ⟨z, hz⟩ := exists_units?_eq_signedUnits hwithin
  exact ⟨z, _, hz, strictMono_signedUnits (by omega), strictMono_signedUnits hnext⟩

/-- What lies between two points is nearer than these to whatever they are equally far from. -/
theorem abs_sub_lt_of_between {a b c t : ℚ} (hab : a < b) (hbc : b < c) (h : |a - t| = |c - t|) :
    |b - t| < |a - t| := by
  have hmid : a - t = -(c - t) := by
    rcases abs_eq_abs.mp h with heq | heq
    · linarith
    · exact heq
  have hleft : |a - t| = c - t := by
    rw [hmid, abs_neg, abs_of_nonneg (by linarith)]
  rw [hleft, abs_lt]
  constructor <;> linarith

theorem IsNearest.le {x y : Double} {q : ℚ} (hx : x.IsNearest q) (hy : y.IsNearest q)
    {own other : Int} (hown : x.units? = some own) (hother : y.units? = some other) :
    own ≤ other := by
  obtain ⟨_, hsome, hnearest⟩ := hy
  obtain rfl := Option.some.inj (hsome.symm.trans hother)
  obtain ⟨_, hsome, hothernearest⟩ := hx
  obtain rfl := Option.some.inj (hsome.symm.trans hown)
  obtain ⟨hle, htie⟩ := hnearest x _ hown
  obtain ⟨hge, hothertie⟩ := hothernearest y _ hother
  have hsame := le_antisymm hle hge
  by_contra hnot
  have hlt := not_le.mp hnot
  -- as near as each other both are even, so that one between them would be nearer
  obtain ⟨z, between, hz, hlow, hhigh⟩ := exists_between hother hown
    ((htie hsame).resolve_left hlt.ne') ((hothertie hsame.symm).resolve_left hlt.ne) hlt
  have hnearer := abs_sub_lt_of_between (Int.cast_lt.mpr hlow) (Int.cast_lt.mpr hhigh) hsame
  exact absurd (hnearest z between hz).1 (not_le.mpr hnearer)

/-- There is one nearest double, but for the sign of zero. -/
theorem IsNearest.unique {x y : Double} {q : ℚ} (hx : x.IsNearest q) (hy : y.IsNearest q) :
    x.units? = y.units? := by
  obtain ⟨own, hown, -⟩ := id hx
  obtain ⟨other, hother, -⟩ := id hy
  rw [hown, hother, le_antisymm (hx.le hy hown hother) (hy.le hx hother hown)]

end Double

end DocQuery
