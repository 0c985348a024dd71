import DocQuery.Proofs.Monotone
import DocQuery.Query.Comparator
import DocQuery.Value.Exact
import Mathlib.Algebra.Order.Field.Basic

/-! Numbers of both kinds are compared by their exact values, and what a comparison blurs it never
reverses. -/

namespace DocQuery

/-- A number of units measures an exact value, an infinity being past all finite magnitudes. -/
inductive Exact.Measures : Int → Exact → Prop
  | bottom : Measures (-(Double.unitsAt Double.rankCount : Int)) ⊥
  | finite {units : Int} (hlow : -(Double.unitsAt Double.rankCount : Int) < units)
      (hhigh : units < Double.unitsAt Double.rankCount) :
      Measures units (.ofRat (units / Double.unitsPerOne))
  | top : Measures (Double.unitsAt Double.rankCount) ⊤

namespace Exact

theorem ofRat_le_ofRat {p q : ℚ} : ofRat p ≤ ofRat q ↔ p ≤ q :=
  WithBot.coe_le_coe.trans WithTop.coe_le_coe

theorem div_le_div_unitsPerOne {units others : Int} :
    (units / Double.unitsPerOne : ℚ) ≤ others / Double.unitsPerOne ↔ units ≤ others := by
  have hpos : (0 : ℚ) < Double.unitsPerOne := Nat.cast_pos.mpr Double.unitsPerOne_pos
  rw [div_le_div_iff_of_pos_right hpos, Int.cast_le]

/-- Exact values are in the order of their measures. -/
theorem Measures.le_iff {units others : Int} {x y : Exact} (hx : Measures units x)
    (hy : Measures others y) : x ≤ y ↔ units ≤ others := by
  have hlimit : 0 < Double.unitsAt Double.rankCount := by decide +kernel
  -- an infinity is on its side of all finite numbers, and so is its measure
  cases hx with
  | bottom =>
    have hleast : (⊥ : Exact) ≤ y := bot_le
    cases hy <;> simp only [hleast, true_iff] <;> omega
  | finite hlow hhigh =>
    cases hy with
    | bottom =>
      have hnot : ¬ ofRat (units / Double.unitsPerOne) ≤ ⊥ := by
        rw [le_bot_iff]
        exact WithBot.coe_ne_bot
      simp only [hnot, false_iff]
      omega
    | finite => rw [ofRat_le_ofRat, div_le_div_unitsPerOne]
    | top =>
      simp only [le_top, true_iff]
      omega
  | top =>
    cases hy with
    | bottom =>
      have hnot : ¬ (⊤ : Exact) ≤ ⊥ := by
        rw [le_bot_iff]
        exact WithBot.coe_ne_bot
      simp only [hnot, false_iff]
      omega
    | finite hlow hhigh =>
      have hnot : ¬ (⊤ : Exact) ≤ ofRat (others / Double.unitsPerOne) := by
        rw [top_le_iff]
        intro h
        exact WithTop.coe_ne_top (WithBot.coe_injective h)
      simp only [hnot, false_iff]
      omega
    | top => simp only [le_refl]

end Exact

/-- An integer is far from where the infinities stand. -/
theorem Double.units_in_range (n : Int64) :
    -(unitsAt rankCount : Int) < n.toInt * unitsPerOne ∧
      n.toInt * unitsPerOne < unitsAt rankCount := by
  have hpos : (0 : Int) < unitsPerOne := Int.natCast_pos.mpr unitsPerOne_pos
  have hroom : 9223372036854775808 * (unitsPerOne : Int) < unitsAt rankCount := by
    have hnat : 9223372036854775808 * unitsPerOne < unitsAt rankCount := by decide +kernel
    exact_mod_cast hnat
  have hlow := Int64.le_toInt n
  have hhigh := Int64.toInt_lt n
  -- the units of one are a common factor that omega does not see through
  have hleast : -9223372036854775808 * (unitsPerOne : Int) ≤ n.toInt * unitsPerOne :=
    Int.mul_le_mul_of_nonneg_right hlow (Int.le_of_lt hpos)
  have hmost : n.toInt * unitsPerOne < 9223372036854775808 * (unitsPerOne : Int) :=
    Int.mul_lt_mul_of_pos_right hhigh hpos
  constructor <;> omega

theorem Double.exists_measures {d : Double} {x : Exact} (h : d.exactValue? = some x) :
    ∃ units, d.units? = some units ∧ Exact.Measures units x := by
  cases d with
  | nan => cases h
  | infinite negative =>
    cases h
    cases negative with
    | false => exact ⟨_, rfl, .top⟩
    | true => exact ⟨_, rfl, .bottom⟩
  | finite negative rank =>
    cases h
    have hlimit : unitsAt rank < unitsAt rankCount := unitsAt_lt rank.isLt
    refine ⟨_, rfl, .finite ?_ ?_⟩ <;> cases negative <;> simp only [signed] <;> omega

namespace Value

theorem exists_measures {v : Value} {x : Exact} (h : v.exactValue? = some x) :
    ∃ units, v.units? = some units ∧ Exact.Measures units x := by
  cases v with
  | int n =>
    cases h
    have hne : (Double.unitsPerOne : ℚ) ≠ 0 :=
      Nat.cast_ne_zero.mpr (Nat.ne_of_gt Double.unitsPerOne_pos)
    have hrange := Double.units_in_range n
    -- the units of one cancel
    have hmeasures := Exact.Measures.finite hrange.1 hrange.2
    rw [Int.cast_mul, Int.cast_natCast, mul_div_cancel_right₀ _ hne] at hmeasures
    exact ⟨_, rfl, hmeasures⟩
  | float d => exact Double.exists_measures h
  | null | bool | str | arr | obj => cases h

theorem compare_atMost {i j : Int} (h : i ≤ j) (bound : Int) :
    AtMost (compare i bound) (compare j bound) := by
  rcases Int.lt_trichotomy i bound with hlt | rfl | hgt
  · exact .inl (Int.compare_eq_lt.mpr hlt)
  · rcases Int.lt_or_eq_of_le h with hless | rfl
    · exact .inr (.inr (Int.compare_eq_gt.mpr hless))
    · exact .inr (.inl rfl)
  · exact .inr (.inr (Int.compare_eq_gt.mpr (Int.lt_of_lt_of_le hgt h)))

variable {expected : Value} {bound : Exact}

theorem order_self (hbound : expected.exactValue? = some bound) :
    expected.order expected = .ok (some .eq) := by
  obtain ⟨units, hunits, _⟩ := exists_measures hbound
  obtain ⟨blur, _, horder⟩ := exists_monotone_order hunits
  rw [horder hunits, Int.compare_eq_eq.mpr rfl]

theorem order_atMost_order (hbound : expected.exactValue? = some bound) {a b : Value} {x y : Exact}
    (ha : a.exactValue? = some x) (hb : b.exactValue? = some y) (hle : x ≤ y) :
    ∃ first second, a.order expected = .ok (some first) ∧ b.order expected = .ok (some second) ∧
      AtMost first second := by
  obtain ⟨boundUnits, hexpected, _⟩ := exists_measures hbound
  obtain ⟨blur, hblur, horder⟩ := exists_monotone_order hexpected
  obtain ⟨units, hunits, hx⟩ := exists_measures ha
  obtain ⟨others, hothers, hy⟩ := exists_measures hb
  have hblurred : blur units ≤ blur others := hblur ((hx.le_iff hy).mp hle)
  exact ⟨_, _, horder hunits, horder hothers, compare_atMost hblurred _⟩

/-- The expected number itself is equal, so what is no greater does not come out greater. -/
theorem lt_of_order_gt (hbound : expected.exactValue? = some bound) {a : Value} {x : Exact}
    (ha : a.exactValue? = some x) (hgreater : a.order expected = .ok (some .gt)) : bound < x := by
  apply lt_of_not_ge
  intro hle
  obtain ⟨first, second, hfirst, hsecond, hatMost⟩ := order_atMost_order hbound ha hbound hle
  cases hgreater.symm.trans hfirst
  cases (order_self hbound).symm.trans hsecond
  exact absurd hatMost (by decide)

theorem lt_of_order_lt (hbound : expected.exactValue? = some bound) {a : Value} {x : Exact}
    (ha : a.exactValue? = some x) (hless : a.order expected = .ok (some .lt)) : x < bound := by
  apply lt_of_not_ge
  intro hle
  obtain ⟨first, second, hfirst, hsecond, hatMost⟩ := order_atMost_order hbound hbound ha hle
  cases (order_self hbound).symm.trans hfirst
  cases hless.symm.trans hsecond
  exact absurd hatMost (by decide)

section

variable {a b : Value} {first second : Ordering} (ha : a.order expected = .ok (some first))
  (hb : b.order expected = .ok (some second)) (hatMost : AtMost first second)

include ha hb hatMost

theorem accepts_above : ∀ test ∈ [Query.Test.gt, .gte],
    test.holds a expected = .ok true → test.holds b expected = .ok true := by
  obtain ⟨hgt, hgte, -, -⟩ := Query.Test.holds_of_order a ha
  obtain ⟨hgt', hgte', -, -⟩ := Query.Test.holds_of_order b hb
  obtain ⟨hgreater, hnotLess, -, -⟩ := hatMost.tests
  intro test htest
  rw [List.mem_cons, List.mem_singleton] at htest
  rcases htest with rfl | rfl
  · rw [hgt, hgt']
    intro haccepts
    exact congrArg Except.ok (hgreater (Except.ok.inj haccepts))
  · rw [hgte, hgte']
    intro haccepts
    exact congrArg Except.ok (hnotLess (Except.ok.inj haccepts))

theorem accepts_below : ∀ test ∈ [Query.Test.lt, .lte],
    test.holds b expected = .ok true → test.holds a expected = .ok true := by
  obtain ⟨-, -, hlt, hlte⟩ := Query.Test.holds_of_order a ha
  obtain ⟨-, -, hlt', hlte'⟩ := Query.Test.holds_of_order b hb
  obtain ⟨-, -, hless, hnotGreater⟩ := hatMost.tests
  intro test htest
  rw [List.mem_cons, List.mem_singleton] at htest
  rcases htest with rfl | rfl
  · rw [hlt, hlt']
    intro haccepts
    exact congrArg Except.ok (hless (Except.ok.inj haccepts))
  · rw [hlte, hlte']
    intro haccepts
    exact congrArg Except.ok (hnotGreater (Except.ok.inj haccepts))

end

/-- An ordering may blur two numbers into one, but it reverses none: numbers in exact order come out
in that order against any number, greater and less are the exact truth, and tests of order accept a
greater number with a lesser one, or a lesser with a greater. -/
theorem order_keeps_exact_order (hbound : expected.exactValue? = some bound) :
    (∀ {a b : Value} {x y : Exact}, a.exactValue? = some x → b.exactValue? = some y → x ≤ y →
      ∃ first second, a.order expected = .ok (some first) ∧
        b.order expected = .ok (some second) ∧ AtMost first second) ∧
    (∀ {a : Value} {x : Exact}, a.exactValue? = some x →
      (a.order expected = .ok (some .gt) → bound < x) ∧
      (a.order expected = .ok (some .lt) → x < bound)) ∧
    (∀ {a b : Value} {x y : Exact}, a.exactValue? = some x → b.exactValue? = some y → x ≤ y →
      (∀ test ∈ [Query.Test.gt, .gte],
        test.holds a expected = .ok true → test.holds b expected = .ok true) ∧
      (∀ test ∈ [Query.Test.lt, .lte],
        test.holds b expected = .ok true → test.holds a expected = .ok true)) := by
  refine ⟨?_, ?_, ?_⟩
  · intro a b x y ha hb hle
    exact order_atMost_order hbound ha hb hle
  · intro a x ha
    exact ⟨lt_of_order_gt hbound ha, lt_of_order_lt hbound ha⟩
  · intro a b x y ha hb hle
    obtain ⟨first, second, hfirst, hsecond, hatMost⟩ := order_atMost_order hbound ha hb hle
    exact ⟨accepts_above hfirst hsecond hatMost, accepts_below hfirst hsecond hatMost⟩

/-- The whole part of a half below zero is zero. So the half is greater than one below zero, which
is the truth, and whatever is above the half is greater too. -/
theorem order_keeps_exact_order_minus_half :
    (int (-1)).exactValue? = some (.ofRat (-1 : Int64).toInt) ∧
    (float (.infinite false)).exactValue? = some ⊤ ∧
    ∃ half, (float (.ofBits 0xbfe0000000000000)).exactValue? = some half ∧
      .ofRat (-1 : Int64).toInt < half ∧ half ≤ ⊤ ∧
      Query.Test.gt.holds (float (.infinite false)) (int (-1)) = .ok true := by
  have hexpected : (int (-1)).exactValue? = some (.ofRat (-1 : Int64).toInt) := rfl
  obtain ⟨_, hexact, hclosed⟩ := order_keeps_exact_order hexpected
  have hhalf : (float (.ofBits 0xbfe0000000000000)).order (int (-1)) = .ok (some .gt) := rfl
  have haccepts : Query.Test.gt.holds (float (.ofBits 0xbfe0000000000000)) (int (-1)) = .ok true :=
    rfl
  refine ⟨hexpected, rfl, _, rfl, (hexact rfl).1 hhalf, le_top, ?_⟩
  exact (hclosed rfl rfl le_top).1 .gt (List.mem_cons_self ..) haccepts

end Value

end DocQuery
