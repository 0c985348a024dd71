import DocQuery.Proofs.ExactOrder
import DocQuery.Proofs.OrderTests

/-! The domain of an ordering does not matter between whole numbers, as long as the expected one is
less than 2⁵³ in size. Up to there every integer is a double, so the nearest double to a whole
number further on is still further on, and nothing is lost with a fraction that is not there. -/

namespace DocQuery

namespace Double

/-- A number whose low bits are clear is a magnitude. -/
theorem unitsAt_floorRank_of_dvd {units : Nat} (h : 2 ^ (units.log2 - 52) ∣ units) :
    unitsAt (floorRank units) = units := by
  rw [unitsAt_floorRank_eq, Nat.shiftLeft_eq, Nat.shiftRight_eq_div_pow, Nat.div_mul_cancel h]

/-- A number of 53 bits has no low bits to be lost, wherever the bits stand, and neither has 2⁵³. -/
theorem low_bits_dvd {n : Nat} (h : n ≤ 2 ^ 53) (place : Nat) :
    2 ^ ((n <<< place).log2 - 52) ∣ n <<< place := by
  rw [Nat.shiftLeft_eq]
  rcases Nat.lt_or_eq_of_le h with hlt | rfl
  · -- the leading bit is at most 52 places above the last one that may be set
    have hlow : (n * 2 ^ place).log2 - 52 ≤ place := by
      rcases Nat.eq_zero_or_pos n with rfl | hpos
      · rw [Nat.zero_mul, Nat.log2_zero]
        omega
      · have hne : n * 2 ^ place ≠ 0 := Nat.ne_of_gt (Nat.mul_pos hpos (Nat.two_pow_pos place))
        have hbits : n * 2 ^ place < 2 ^ (53 + place) := by
          rw [Nat.pow_add]
          exact Nat.mul_lt_mul_of_pos_right hlt (Nat.two_pow_pos place)
        have hlog := (Nat.log2_lt hne).mpr hbits
        omega
    exact Nat.dvd_mul_left_of_dvd (Nat.pow_dvd_pow 2 hlow) n
  · -- a power of two has no bit but the leading one
    rw [← Nat.pow_add, Nat.log2_two_pow]
    exact Nat.pow_dvd_pow 2 (by omega)

theorem mul_unitsPerOne (n : Nat) : n * unitsPerOne = n <<< 1074 := by
  simp only [unitsPerOne, Nat.shiftLeft_eq, Nat.one_mul]

theorem exists_unitsAt_eq_mul {n : Nat} (h : n ≤ 2 ^ 53) :
    ∃ rank ≤ rankCount, unitsAt rank = n * unitsPerOne := by
  have hunits : unitsAt (floorRank (n * unitsPerOne)) = n * unitsPerOne := by
    apply unitsAt_floorRank_of_dvd
    rw [mul_unitsPerOne]
    exact low_bits_dvd h 1074
  have hsmall : n * unitsPerOne < unitsAt rankCount := by
    have hlimit : 2 ^ 53 * unitsPerOne < unitsAt rankCount := by decide +kernel
    exact Nat.lt_of_le_of_lt (Nat.mul_le_mul_right unitsPerOne h) hlimit
  refine ⟨floorRank (n * unitsPerOne), ?_, hunits⟩
  apply Nat.le_of_lt
  apply lt_of_unitsAt_lt
  rw [hunits]
  exact hsmall

/-- Up to 2⁵³ every integer is a double. -/
theorem rounded_mul {k : Int} (h : k.natAbs ≤ 2 ^ 53) :
    rounded (k * unitsPerOne) = k * unitsPerOne := by
  obtain ⟨rank, hrank, hunits⟩ := exists_unitsAt_eq_mul h
  have hsigned : k * unitsPerOne = signed (decide (k < 0)) (unitsAt rank) := by
    rw [hunits, signed, Int.natCast_mul]
    by_cases hnegative : k < 0
    · have habs : (k.natAbs : Int) = -k := by omega
      simp only [hnegative, decide_true, if_true, habs, Int.neg_mul, Int.neg_neg]
    · have habs : (k.natAbs : Int) = k := by omega
      simp only [hnegative, decide_false, Bool.false_eq_true, if_false, habs]
  rw [hsigned]
  exact rounded_signed _ hrank

/-- The units of an infinity are a whole number of ones. -/
theorem exists_unitsAt_rankCount_eq_mul : ∃ n, unitsAt rankCount = n * unitsPerOne :=
  ⟨1 <<< 1024, by decide +kernel⟩

end Double

/-- A monotone function that tells a number from both of its neighbours tells it from all others. -/
theorem compare_of_monotone {blur : Int → Int} (hblur : Monotone blur) {bound : Int}
    (hbelow : blur (bound - 1) < blur bound) (habove : blur bound < blur (bound + 1)) (n : Int) :
    compare (blur n) (blur bound) = compare n bound := by
  rcases Int.lt_trichotomy n bound with hlt | rfl | hgt
  · have hle : blur n ≤ blur (bound - 1) := hblur (by omega)
    rw [Int.compare_eq_lt.mpr hlt, Int.compare_eq_lt.mpr (by omega)]
  · rw [Int.compare_eq_eq.mpr rfl, Int.compare_eq_eq.mpr rfl]
  · have hle : blur (bound + 1) ≤ blur n := hblur (by omega)
    rw [Int.compare_eq_gt.mpr hgt, Int.compare_eq_gt.mpr (by omega)]

namespace Double

theorem monotone_mul_unitsPerOne : Monotone fun n : Int => n * unitsPerOne := by
  intro n m h
  exact Int.mul_le_mul_of_nonneg_right h (Int.natCast_nonneg unitsPerOne)

/-- The same for whole numbers, whose neighbours are one apart. -/
theorem compare_mul_of_monotone {blur : Int → Int} (hblur : Monotone blur) {bound : Int}
    (hbelow : blur ((bound - 1) * unitsPerOne) < blur (bound * unitsPerOne))
    (habove : blur (bound * unitsPerOne) < blur ((bound + 1) * unitsPerOne)) (n : Int) :
    compare (blur (n * unitsPerOne)) (blur (bound * unitsPerOne)) = compare n bound :=
  compare_of_monotone (hblur.comp monotone_mul_unitsPerOne) hbelow habove n

/-- Truncation does not blur whole numbers, and clamping none that is near the bound. -/
theorem compare_wholePart_mul (n : Int) {bound : Int} (hbound : bound.natAbs < 2 ^ 53) :
    compare (wholePart (n * unitsPerOne)) bound = compare n bound := by
  have hne : (unitsPerOne : Int) ≠ 0 := Int.natCast_ne_zero.mpr (Nat.ne_of_gt unitsPerOne_pos)
  have hclamp (k : Int) : wholePart (k * unitsPerOne) =
      max Int64.minValue.toInt (min k Int64.maxValue.toInt) := by
    rw [wholePart, Int.mul_tdiv_cancel k hne, toInt_ofIntClamp_eq]
  -- the range of integers goes beyond 2⁵³ on both sides
  have hlow : Int64.minValue.toInt ≤ -2 ^ 53 := by decide
  have hhigh : 2 ^ 53 ≤ Int64.maxValue.toInt := by decide
  have hself : wholePart (bound * unitsPerOne) = bound := by
    rw [hclamp]
    omega
  have hbelow : wholePart ((bound - 1) * unitsPerOne) < wholePart (bound * unitsPerOne) := by
    rw [hself, hclamp]
    omega
  have habove : wholePart (bound * unitsPerOne) < wholePart ((bound + 1) * unitsPerOne) := by
    rw [hself, hclamp]
    omega
  have hcompare := compare_mul_of_monotone monotone_wholePart hbelow habove n
  rw [hself] at hcompare
  exact hcompare

/-- Rounding may blur a whole number, but not so far that it reaches the bound. -/
theorem compare_rounded_mul (n : Int) {bound : Int} (hbound : bound.natAbs < 2 ^ 53) :
    compare (rounded (n * unitsPerOne)) (bound * unitsPerOne) = compare n bound := by
  have hpos : (0 : Int) < unitsPerOne := Int.natCast_pos.mpr unitsPerOne_pos
  -- the neighbours of the bound are doubles as well
  have hbelow : rounded ((bound - 1) * unitsPerOne) < rounded (bound * unitsPerOne) := by
    rw [rounded_mul (by omega), rounded_mul (by omega)]
    exact Int.mul_lt_mul_of_pos_right (by omega) hpos
  have habove : rounded (bound * unitsPerOne) < rounded ((bound + 1) * unitsPerOne) := by
    rw [rounded_mul (by omega), rounded_mul (by omega)]
    exact Int.mul_lt_mul_of_pos_right (by omega) hpos
  have hself : rounded (bound * unitsPerOne) = bound * unitsPerOne := rounded_mul (by omega)
  have hcompare := compare_mul_of_monotone monotone_rounded hbelow habove n
  rw [hself] at hcompare
  exact hcompare

end Double

namespace Exact

theorem ofRat_injective {p q : ℚ} (h : ofRat p = ofRat q) : p = q :=
  WithTop.coe_injective (WithBot.coe_injective h)

theorem Measures.eq_iff {units others : Int} {x y : Exact} (hx : Measures units x)
    (hy : Measures others y) : x = y ↔ units = others := by
  rw [le_antisymm_iff, hx.le_iff hy, hy.le_iff hx]
  omega

/-- Measures compare as what they measure. -/
theorem Measures.compares {units others : Int} {x y : Exact} (hx : Measures units x)
    (hy : Measures others y) : (compare units others).Compares x y := by
  rcases Int.lt_trichotomy units others with hlt | rfl | hgt
  · rw [Int.compare_eq_lt.mpr hlt]
    apply lt_of_not_ge
    rw [hy.le_iff hx]
    omega
  · rw [Int.compare_eq_eq.mpr rfl]
    exact (hx.eq_iff hy).mpr rfl
  · rw [Int.compare_eq_gt.mpr hgt]
    apply lt_of_not_ge
    rw [hx.le_iff hy]
    omega

/-- What is whole is measured by a whole number of ones, an infinity too. -/
theorem Measures.exists_eq_mul {units : Int} {x : Exact} (hx : Measures units x)
    (hwhole : x.IsWhole) : ∃ n : Int, units = n * Double.unitsPerOne := by
  obtain ⟨n, hinfinity⟩ := Double.exists_unitsAt_rankCount_eq_mul
  cases hx with
  | bottom => exact ⟨-n, by rw [hinfinity, Int.natCast_mul, Int.neg_mul]⟩
  | finite =>
    have hne : (Double.unitsPerOne : ℚ) ≠ 0 :=
      Nat.cast_ne_zero.mpr (Nat.ne_of_gt Double.unitsPerOne_pos)
    rcases hwhole with hbottom | htop | ⟨n, hn⟩
    · exact absurd hbottom WithBot.coe_ne_bot
    · exact absurd (WithBot.coe_injective htop) WithTop.coe_ne_top
    · have hunits : (units : ℚ) = n * Double.unitsPerOne :=
        (div_eq_iff hne).mp (ofRat_injective hn)
      exact ⟨n, by exact_mod_cast hunits⟩
  | top => exact ⟨n, by rw [hinfinity, Int.natCast_mul]⟩

end Exact

/-- An integer is measured by as many ones. -/
theorem Exact.measures_toInt (e : Int64) :
    Measures (e.toInt * Double.unitsPerOne) (.ofRat e.toInt) := by
  have hexact : (Value.int e).exactValue? = some (.ofRat e.toInt) := rfl
  obtain ⟨units, hunits, hmeasures⟩ := Value.exists_measures hexact
  cases hunits
  exact hmeasures

namespace Double

/-- A double has the value that its units measure. -/
theorem exactValue?_of_units? {y : Double} {units : Int} {x : Exact} (h : y.units? = some units)
    (hx : Exact.Measures units x) : y.exactValue? = some x := by
  cases hexact : y.exactValue? with
  | none =>
    cases y with
    | nan => cases h
    | infinite negative => cases hexact
    | finite negative rank => cases hexact
  | some other =>
    -- one number of units cannot measure two values
    obtain ⟨others, hothers, hother⟩ := exists_measures hexact
    have hsame : units = others := Option.some.inj (h.symm.trans hothers)
    rw [(hother.eq_iff hx).mpr hsame.symm]

/-- An integer below 2⁵³ in size keeps its value as a double. -/
theorem exactValue?_ofInt {e : Int64} (he : e.toInt.natAbs < 2 ^ 53) :
    (ofInt e.toInt).exactValue? = some (.ofRat e.toInt) := by
  apply exactValue?_of_units? _ (Exact.measures_toInt e)
  rw [units?_ofInt, rounded_mul (Nat.le_of_lt he)]

end Double

/-- Both domains give the exact order of a whole number against an expected one. -/
theorem Value.order_of_isWhole {e : Int64} (he : e.toInt.natAbs < 2 ^ 53) {y : Double}
    (hy : y.exactValue? = some (.ofRat e.toInt)) {actual : Value} {x : Exact}
    (hx : actual.exactValue? = some x) (hwhole : x.IsWhole) :
    ∃ outcome : Ordering, outcome.Compares x (.ofRat e.toInt) ∧
      actual.order (int e) = .ok (some outcome) ∧
      actual.order (float y) = .ok (some outcome) := by
  obtain ⟨units, hunits, hmeasures⟩ := exists_measures hx
  obtain ⟨n, rfl⟩ := hmeasures.exists_eq_mul hwhole
  obtain ⟨bound, hbound, hboundMeasures⟩ := Double.exists_measures hy
  have hsame : bound = e.toInt * Double.unitsPerOne :=
    (hboundMeasures.eq_iff (Exact.measures_toInt e)).mp rfl
  have hexact : compare (n * Double.unitsPerOne) (e.toInt * Double.unitsPerOne) =
      compare n e.toInt := by
    have hpos : (0 : Int) < Double.unitsPerOne := Int.natCast_pos.mpr Double.unitsPerOne_pos
    apply compare_of_monotone Double.monotone_mul_unitsPerOne
    · exact Int.mul_lt_mul_of_pos_right (by omega) hpos
    · exact Int.mul_lt_mul_of_pos_right (by omega) hpos
  refine ⟨compare n e.toInt, ?_, ?_, ?_⟩
  · rw [← hexact]
    exact hmeasures.compares (Exact.measures_toInt e)
  · rw [order_int_of_units? e hunits, Double.compare_wholePart_mul n he]
  · rw [order_float_of_units? hbound hunits, hsame, Double.compare_rounded_mul n he]

namespace Query

/-- An integer less than 2⁵³ in size and the double of its value are one bound to everything that is
whole or infinite: both domains give the exact order against it, the tests of order say the same of
it, and so do all queries that ask for them. -/
theorem whole_numbers_order_alike {e : Int64} (he : e.toInt.natAbs < 2 ^ 53) :
    (Double.ofInt e.toInt).exactValue? = some (.ofRat e.toInt) ∧
    ∀ y : Double, y.exactValue? = some (.ofRat e.toInt) →
      (∀ (actual : Value) (x : Exact), actual.exactValue? = some x → x.IsWhole →
        (∃ outcome : Ordering, outcome.Compares x (.ofRat e.toInt) ∧
          actual.order (.int e) = .ok (some outcome) ∧
          actual.order (.float y) = .ok (some outcome)) ∧
        ∀ test ∈ [Test.gt, .gte, .lt, .lte],
          test.holds actual (.int e) = test.holds actual (.float y)) ∧
      (∀ (path : String) (document : Document) (options : Options) (x : Exact), IsPath path →
        (Subject.fieldValue ⟨document, options.separator⟩ path).exactValue? = some x → x.IsWhole →
        ∀ test ∈ [Test.gt, .gte, .lt, .lte],
          satisfied options (keyed path (keyed test.name (.int e))) document =
            satisfied options (keyed path (keyed test.name (.float y))) document) := by
  refine ⟨Double.exactValue?_ofInt he, ?_⟩
  intro y hy
  have hholds (actual : Value) (x : Exact) (hx : actual.exactValue? = some x)
      (hwhole : x.IsWhole) : ∀ test ∈ [Test.gt, .gte, .lt, .lte],
      test.holds actual (.int e) = test.holds actual (.float y) := by
    obtain ⟨outcome, -, hint, hfloat⟩ := Value.order_of_isWhole he hy hx hwhole
    intro test htest
    obtain ⟨allows, -, hallows⟩ := Test.exists_holds_eq_map test htest
    calc
      test.holds actual (.int e) = (actual.order (.int e)).map allows := hallows actual (.int e)
      _ = (actual.order (.float y)).map allows := by rw [hint, hfloat]
      _ = test.holds actual (.float y) := (hallows actual (.float y)).symm
  refine ⟨?_, ?_⟩
  · intro actual x hx hwhole
    exact ⟨Value.order_of_isWhole he hy hx hwhole, hholds actual x hx hwhole⟩
  · intro path document options x hpath hx hwhole test htest
    have hsame := hholds _ x hx hwhole test htest
    rw [satisfied_test hpath, satisfied_test hpath, hsame]

/-- Seven more than 2⁵³ lies halfway between two doubles, and an infinity counts as whole. -/
theorem whole_numbers_order_alike_beyond_precision :
    (9007199254740991 : Int64).toInt.natAbs < 2 ^ 53 ∧
    (Double.ofInt 9007199254740991).exactValue? = some (.ofRat (9007199254740991 : Int64).toInt) ∧
    ((Value.int 9007199254740999).exactValue? = some (.ofRat (9007199254740999 : Int64).toInt) ∧
      (Exact.ofRat (9007199254740999 : Int64).toInt).IsWhole ∧
      Test.gt.holds (.value (.int 9007199254740999)) (.int 9007199254740991) =
        Test.gt.holds (.value (.int 9007199254740999)) (.float (.ofInt 9007199254740991))) ∧
    (IsPath "a" ∧ (Subject.fieldValue ⟨[("a", .float (.infinite true))], '.'⟩ "a").exactValue? =
        some ⊥ ∧ (⊥ : Exact).IsWhole ∧
      satisfied {} (keyed "a" (keyed "$lt" (.int 9007199254740991)))
          [("a", .float (.infinite true))] =
        satisfied {} (keyed "a" (keyed "$lt" (.float (.ofInt 9007199254740991))))
          [("a", .float (.infinite true))]) := by
  have hsize : (9007199254740991 : Int64).toInt.natAbs < 2 ^ 53 := by decide
  have hpath : IsPath "a" := by decide
  have hwhole : (Exact.ofRat (9007199254740999 : Int64).toInt).IsWhole := .inr (.inr ⟨_, rfl⟩)
  have hbottom : (⊥ : Exact).IsWhole := .inl rfl
  obtain ⟨hvalue, halike⟩ := whole_numbers_order_alike hsize
  obtain ⟨htests, hqueries⟩ := halike _ hvalue
  have hinteger := htests (.int 9007199254740999) _ rfl hwhole
  have hinfinite := hqueries "a" [("a", .float (.infinite true))] {} ⊥ hpath rfl hbottom
  exact ⟨hsize, hvalue, ⟨rfl, hwhole, hinteger.2 .gt (by decide)⟩,
    ⟨hpath, rfl, hbottom, hinfinite .lt (by decide)⟩⟩

end Query

end DocQuery
