import DocQuery.Double.Shortest

/-! The double nearest to a decimal depends on the value of the decimal alone, and the shortest
decimal of a double reads back as that double. -/

namespace DocQuery

theorem Decimal.ten_pow_pos (n : Nat) : 0 < Nat.pow 10 n := Nat.pow_pos (by decide)

theorem Decimal.ten_pow_le {m n : Nat} (h : m ≤ n) : Nat.pow 10 m ≤ Nat.pow 10 n :=
  Nat.pow_le_pow_right (by decide) h

theorem Decimal.ten_pow_le_num {d : Decimal} {n : Nat} (h : d.significand ≠ 0)
    (hn : n ≤ d.exponent.toNat) : Nat.pow 10 n ≤ d.num :=
  Nat.le_trans (ten_pow_le hn) (Nat.le_mul_of_pos_left _ (Nat.pos_of_ne_zero h))

theorem Decimal.den_pos (d : Decimal) : 0 < d.den := ten_pow_pos _

/-- The decimals have one value. -/
def Decimal.Equivalent (d e : Decimal) : Prop := d.num * e.den = e.num * d.den

namespace Double

theorem compare_mul_right (a b : Nat) {k : Nat} (h : 0 < k) :
    compare (a * k) (b * k) = compare a b := by
  rcases Nat.lt_trichotomy a b with hlt | heq | hgt
  · rw [Nat.compare_eq_lt.mpr hlt, Nat.compare_eq_lt.mpr (Nat.mul_lt_mul_of_pos_right hlt h)]
  · rw [heq, Nat.compare_eq_eq.mpr rfl, Nat.compare_eq_eq.mpr rfl]
  · rw [Nat.compare_eq_gt.mpr hgt, Nat.compare_eq_gt.mpr (Nat.mul_lt_mul_of_pos_right hgt h)]

theorem nearestRank_mul (num den : Nat) {k : Nat} (h : 0 < k) :
    nearestRank (num * k) (den * k) = nearestRank num den := by
  have hquotient : num * k / (den * k) = num / den := Nat.mul_div_mul_right num den h
  have hcompare (sum : Nat) : compare (2 * (num * k)) (sum * (den * k)) =
      compare (2 * num) (sum * den) := by
    rw [← Nat.mul_assoc, ← Nat.mul_assoc, compare_mul_right _ _ h]
  simp only [nearestRank, hquotient, hcompare]

/-- Rounding sees only the value of a quotient. -/
theorem nearestRank_congr {num₁ den₁ num₂ den₂ : Nat} (h₁ : 0 < den₁) (h₂ : 0 < den₂)
    (h : num₁ * den₂ = num₂ * den₁) : nearestRank num₁ den₁ = nearestRank num₂ den₂ := by
  calc
    nearestRank num₁ den₁ = nearestRank (num₁ * den₂) (den₁ * den₂) :=
      (nearestRank_mul num₁ den₁ h₂).symm
    _ = nearestRank (num₂ * den₁) (den₂ * den₁) := by rw [h, Nat.mul_comm den₁]
    _ = nearestRank num₂ den₂ := nearestRank_mul num₂ den₂ h₁

/-- Rounding stays on the rank below or goes up to the next. -/
theorem floorRank_le_nearestRank (num den : Nat) :
    floorRank (num / den) ≤ nearestRank num den := by
  unfold nearestRank
  dsimp only
  split
  · exact Nat.le_refl _
  · exact Nat.le_succ _
  · split
    · exact Nat.le_refl _
    · exact Nat.le_succ _

theorem nearestRank_le_floorRank_succ (num den : Nat) :
    nearestRank num den ≤ floorRank (num / den) + 1 := by
  unfold nearestRank
  dsimp only
  split
  · exact Nat.le_succ _
  · exact Nat.le_refl _
  · split
    · exact Nat.le_succ _
    · exact Nat.le_refl _

theorem le_nearestRank {rank num den : Nat} (hden : 0 < den) (h : unitsAt rank * den ≤ num) :
    rank ≤ nearestRank num den := by
  have hunits : unitsAt rank ≤ num / den := (Nat.le_div_iff_mul_le hden).mpr h
  have hfloor : rank < floorRank (num / den) + 1 :=
    lt_of_unitsAt_lt (Nat.lt_of_le_of_lt hunits (unitsAt_floorRank (num / den)).2)
  have hle := floorRank_le_nearestRank num den
  omega

theorem floorRank_le_floorRank {units others : Nat} (h : units ≤ others) :
    floorRank units ≤ floorRank others := by
  have hbelow : unitsAt (floorRank units) ≤ units := (unitsAt_floorRank units).1
  have habove : others < unitsAt (floorRank others + 1) := (unitsAt_floorRank others).2
  have hlt : floorRank units < floorRank others + 1 := lt_of_unitsAt_lt (by omega)
  omega

/-- Twice the point halfway from the last rank at or below a quotient to the next, times the
denominator. -/
def twiceMidpoint (num den : Nat) : Nat :=
  (unitsAt (floorRank (num / den)) + unitsAt (floorRank (num / den) + 1)) * den

theorem nearestRank_of_below {num den : Nat} (h : 2 * num < twiceMidpoint num den) :
    nearestRank num den = floorRank (num / den) := by
  have hcompare : compare (2 * num) (twiceMidpoint num den) = .lt := Nat.compare_eq_lt.mpr h
  unfold twiceMidpoint at hcompare
  simp only [nearestRank, hcompare]

theorem nearestRank_of_above {num den : Nat} (h : twiceMidpoint num den < 2 * num) :
    nearestRank num den = floorRank (num / den) + 1 := by
  have hcompare : compare (2 * num) (twiceMidpoint num den) = .gt := Nat.compare_eq_gt.mpr h
  unfold twiceMidpoint at hcompare
  simp only [nearestRank, hcompare]

/-- A greater quotient is never rounded to a lesser magnitude. -/
theorem nearestRank_le_nearestRank {num other : Nat} (h : num ≤ other) (den : Nat) :
    nearestRank num den ≤ nearestRank other den := by
  have hquotient : num / den ≤ other / den := Nat.div_le_div_right h
  have hup := nearestRank_le_floorRank_succ num den
  have hdown := floorRank_le_nearestRank other den
  rcases Nat.lt_or_eq_of_le (floorRank_le_floorRank hquotient) with hlt | heq
  · -- a magnitude lies between the two, and neither crosses it
    omega
  · -- both have one midpoint
    have hmidpoint : twiceMidpoint num den = twiceMidpoint other den := by
      unfold twiceMidpoint
      rw [heq]
    rcases Nat.lt_or_ge (2 * num) (twiceMidpoint num den) with hbelow | habove
    · rw [nearestRank_of_below hbelow, heq]
      exact hdown
    · rcases Nat.lt_or_eq_of_le h with hless | rfl
      · have hpast : twiceMidpoint other den < 2 * other := by omega
        rw [nearestRank_of_above hpast, ← heq]
        exact hup
      · exact Nat.le_refl _

/-- Integers of 64 bits are far below the infinities. -/
theorem isFinite_ofInt {n : Int} (h : n.natAbs ≤ 18446744073709551616) :
    (ofInt n).isFinite = true := by
  have hlimit : unitsAt (1087 <<< 52) = 18446744073709551616 * unitsPerOne := by decide +kernel
  have hrank : nearestRank (n.natAbs * unitsPerOne) 1 ≤ 1087 <<< 52 :=
    calc
      nearestRank (n.natAbs * unitsPerOne) 1 ≤
          nearestRank (18446744073709551616 * unitsPerOne) 1 :=
        nearestRank_le_nearestRank (Nat.mul_le_mul_right _ h) 1
      _ = nearestRank (unitsAt (1087 <<< 52) * 1) 1 := by rw [Nat.mul_one, hlimit]
      _ = 1087 <<< 52 := nearestRank_unitsAt _ Nat.one_pos
  have hbelow : nearestRank (n.natAbs * unitsPerOne) 1 < rankCount :=
    Nat.lt_of_le_of_lt hrank (by decide)
  rw [ofInt, ofRatio, ofRank, dif_pos hbelow]
  rfl

/-- Below half of the least magnitude everything is rounded to zero. -/
theorem nearestRank_eq_zero {num den : Nat} (h : 2 * num < den) : nearestRank num den = 0 := by
  have hquotient : num / den = 0 := Nat.div_eq_of_lt (by omega)
  have hfloor : floorRank 0 = 0 := floorRank_unitsAt 0
  have hleast : unitsAt 0 + unitsAt (0 + 1) = 1 := rfl
  have hcompare : compare (2 * num) (1 * den) = .lt := Nat.compare_eq_lt.mpr (by omega)
  simp only [nearestRank, hquotient, hfloor, hleast, hcompare]

/-- A decimal of three hundred and ten zeros or more is past all finite magnitudes. -/
theorem rankCount_le_of_large {d : Decimal} (h : d.significand ≠ 0) (hlarge : 310 ≤ d.exponent) :
    rankCount ≤ nearestRank (d.num * unitsPerOne) d.den := by
  have hone : d.den = 1 := congrArg (Nat.pow 10) (show (-d.exponent).toNat = 0 by omega)
  have hpast (n : Nat) (hn : n ≤ d.exponent.toNat)
      (hlimit : unitsAt rankCount ≤ Nat.pow 10 n * unitsPerOne) :
      unitsAt rankCount * d.den ≤ d.num * unitsPerOne := by
    rw [hone, Nat.mul_one]
    exact Nat.le_trans hlimit (Nat.mul_le_mul_right _ (Decimal.ten_pow_le_num h hn))
  exact le_nearestRank d.den_pos (hpast 310 (by omega) (by decide +kernel))

theorem below_half_of_small {d : Decimal} (hsmall : d.exponent + d.significand.log2 + 1 ≤ -324) :
    2 * (d.num * unitsPerOne) < d.den := by
  have hone : Nat.pow 10 d.exponent.toNat = 1 :=
    congrArg (Nat.pow 10) (show d.exponent.toNat = 0 by omega)
  have hnum : d.num < Nat.pow 10 (d.significand.log2 + 1) := by
    have hlog : d.significand < Nat.pow 2 (d.significand.log2 + 1) := Nat.lt_log2_self
    have hbase : Nat.pow 2 (d.significand.log2 + 1) ≤ Nat.pow 10 (d.significand.log2 + 1) :=
      Nat.pow_le_pow_left (by decide) _
    rw [Decimal.num, hone, Nat.mul_one]
    exact Nat.lt_of_lt_of_le hlog hbase
  have hbelow (n : Nat) (hn : d.significand.log2 + 1 + n ≤ (-d.exponent).toNat)
      (hunits : 2 * unitsPerOne ≤ Nat.pow 10 n) : 2 * (d.num * unitsPerOne) < d.den := by
    calc
      2 * (d.num * unitsPerOne) = d.num * (2 * unitsPerOne) := Nat.mul_left_comm 2 _ _
      _ ≤ d.num * Nat.pow 10 n := Nat.mul_le_mul_left _ hunits
      _ < Nat.pow 10 (d.significand.log2 + 1) * Nat.pow 10 n :=
        Nat.mul_lt_mul_of_pos_right hnum (Decimal.ten_pow_pos n)
      _ = Nat.pow 10 (d.significand.log2 + 1 + n) := (Nat.pow_add 10 _ n).symm
      _ ≤ d.den := Decimal.ten_pow_le hn
  exact hbelow 324 (by omega) (by decide +kernel)

/-- What is settled from the size of the exponent is settled as rounding would. -/
theorem ofDecimal_eq_ofRatio (negative : Bool) (d : Decimal) :
    ofDecimal negative d = ofRatio negative d.num d.den := by
  have hzero (hsmall : 2 * (d.num * unitsPerOne) < d.den) :
      ofRank negative 0 = ofRatio negative d.num d.den := by
    rw [ofRatio, nearestRank_eq_zero hsmall]
  unfold ofDecimal
  split
  · rename_i hsignificand
    have hnum : d.num = 0 := by rw [Decimal.num, hsignificand, Nat.zero_mul]
    apply hzero
    rw [hnum, Nat.zero_mul]
    exact d.den_pos
  · rename_i hsignificand
    split
    · rename_i hlarge
      have hpast := rankCount_le_of_large hsignificand hlarge
      rw [ofRatio, ofRank, dif_neg (Nat.not_lt.mpr hpast)]
    · split
      · rename_i hsmall
        exact hzero (below_half_of_small hsmall)
      · rfl

theorem readsBack_of_onGrid {rank : Nat} {exponent : Int} {d : Decimal}
    (h : onGrid rank exponent = some d) : readsBack rank d = true :=
  List.find?_some h

/-- A magnitude reads back from the decimal that it is exactly. -/
theorem readsBack_exact (rank fineness : Nat) {power : Nat} {exponent : Int}
    (hexponent : exponent = -(fineness : Int))
    (hunits : power * unitsPerOne = Nat.pow 10 fineness) :
    readsBack rank ⟨unitsAt rank * power, exponent⟩ = true := by
  generalize hd : Decimal.mk (unitsAt rank * power) exponent = d
  have hden : d.den = Nat.pow 10 fineness := by
    rw [← hd]
    exact congrArg (Nat.pow 10) (show (-exponent).toNat = fineness by omega)
  have hnum : d.num * unitsPerOne = unitsAt rank * d.den := by
    have hone : Nat.pow 10 exponent.toNat = 1 :=
      congrArg (Nat.pow 10) (show exponent.toNat = 0 by omega)
    rw [hden, ← hd, Decimal.num, hone, Nat.mul_one, Nat.mul_assoc, hunits]
  rw [readsBack, hnum, nearestRank_unitsAt rank d.den_pos]
  exact beq_self_eq_true rank

theorem readsBack_shortestFrom (rank fineness : Nat) :
    readsBack rank (shortestFrom rank fineness) = true := by
  induction fineness with
  | zero =>
    -- one unit is a whole number of the finest grid's steps
    exact readsBack_exact rank 1074 rfl (by decide +kernel)
  | succ fineness ih =>
    rw [shortestFrom]
    cases hgrid : onGrid rank (fineness + 1 - 1074 : Int) with
    | none => exact ih
    | some d => exact readsBack_of_onGrid hgrid

theorem readsBack_shortest (rank : Nat) : readsBack rank (shortest rank) = true := by
  unfold shortest
  split
  · rename_i hzero
    rw [hzero]
    exact beq_iff_eq.mpr (nearestRank_eq_zero (by decide))
  · exact readsBack_shortestFrom rank _

theorem shortest_significand_ne_zero {rank : Nat} (h : rank ≠ 0) :
    (shortest rank).significand ≠ 0 := by
  intro hzero
  have hreads := beq_iff_eq.mp (readsBack_shortest rank)
  have hnum : (shortest rank).num = 0 := by rw [Decimal.num, hzero, Nat.zero_mul]
  rw [hnum, Nat.zero_mul, nearestRank_eq_zero (shortest rank).den_pos] at hreads
  exact h hreads.symm

/-- However the value of its shortest decimal is written, a double is read again from it. -/
theorem ofDecimal_of_equivalent_shortest (negative : Bool) (rank : Fin rankCount) {d : Decimal}
    (h : d.Equivalent (shortest rank)) : ofDecimal negative d = finite negative rank := by
  have hreads : nearestRank ((shortest rank).num * unitsPerOne) (shortest rank).den = rank :=
    beq_iff_eq.mp (readsBack_shortest rank)
  have hvalue : d.num * unitsPerOne * (shortest rank).den =
      (shortest rank).num * unitsPerOne * d.den := by
    rw [Nat.mul_right_comm, show d.num * (shortest rank).den = (shortest rank).num * d.den from h,
      Nat.mul_right_comm]
  have hrank : nearestRank (d.num * unitsPerOne) d.den = rank :=
    (nearestRank_congr d.den_pos (shortest rank).den_pos hvalue).trans hreads
  rw [ofDecimal_eq_ofRatio, ofRatio, hrank, ofRank, dif_pos rank.isLt]

end Double

end DocQuery
