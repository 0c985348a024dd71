import DocQuery.Proofs.LiteralPlaces
import DocQuery.Proofs.Nearest
import DocQuery.Proofs.Spelling

/-! Whether a number is an integer or a double is decided by its spelling and its range alone, and
wherever it stands in a text it is read as it would be alone. -/

namespace DocQuery

namespace Json.Numeral

theorem eq_of_fraction?_nil {cs after : List Char} (h : fraction? cs = some ([], after)) :
    after = cs := by
  unfold fraction? at h
  split at h
  · dsimp only at h
    split at h
    · cases h
    · rename_i hne
      exact absurd (congrArg (fun read => read.1.isEmpty) (Option.some.inj h)) hne
  · cases h
    rfl

theorem eq_nil_of_exponent?_none {cs : List Char} (h : exponent? cs = some none) : cs = [] := by
  unfold exponent? at h
  split at h
  · rfl
  · split at h
    · obtain ⟨_, _, hnone⟩ := Option.map_eq_some_iff.mp h
      cases hnone
    · cases h

/-- Without a fraction and an exponent a number is a sign and digits. -/
theorem eq_minus_or_isDigit_of_integral {word : List Char} {n : Numeral}
    (hread : ofChars? word = some n) (hintegral : n.integral = true) :
    ∀ c ∈ word, c = '-' ∨ c.isDigit = true := by
  have hsign (c : Char) (h : c ∈ word) : c = '-' ∨ c ∈ (sign word).2 := by
    unfold sign
    split
    · exact List.mem_cons.mp h
    · exact Or.inr h
  unfold ofChars? at hread
  dsimp only at hread
  split at hread
  · obtain ⟨⟨fraction, after⟩, hfraction, hread⟩ := Option.bind_eq_some_iff.mp hread
    obtain ⟨exponent, hexponent, hn⟩ := Option.bind_eq_some_iff.mp hread
    cases hn
    obtain ⟨hempty, hnone⟩ := Bool.and_eq_true_iff.mp hintegral
    obtain rfl := List.isEmpty_iff.mp hempty
    obtain rfl := Option.isNone_iff_eq_none.mp hnone
    -- nothing is left behind the digits
    have hafter : after = [] := eq_nil_of_exponent?_none hexponent
    have hrest := eq_of_fraction?_nil hfraction
    rw [hafter] at hrest
    intro c hc
    refine (hsign c hc).imp_right fun hc => ?_
    rw [← List.takeWhile_append_dropWhile (p := Char.isDigit) (l := (sign word).2), ← hrest,
      List.append_nil] at hc
    exact List.all_eq_true.mp List.all_takeWhile c hc
  · cases hread

theorem toRat_ofInt (n : Int) : (ofInt n).decimal.toRat (ofInt n).negative = n := by
  have hsigned : Double.signed (decide (n < 0)) n.natAbs = n := by
    unfold Double.signed
    simp only [decide_eq_true_eq]
    split <;> omega
  rw [Decimal.toRat, ofInt, hsigned, zpow_zero, mul_one]

/-- What is no integer of 64 bits is a double. -/
theorem value?_eq_float? {n : Numeral} (h : n.integer?.bind Integer.ofInt? = none) :
    n.value? = n.float?.map Value.ofTree := by
  rw [value?, tree?, h]

end Json.Numeral

namespace Value

open Json (Literal Numeral Token)

/-- A number alone is a text of its own. -/
theorem ofText?_numeral {word : String} {n : Numeral}
    (h : Numeral.ofChars? word.toList = some n) : Literal.ofText? word = some (.number n) := by
  rw [Literal.ofText?, (Token.spells_numeral h).ofChars?]
  rfl

/-- What is not read as an integer is read as the nearest double, unless that is infinite. -/
theorem ofText_eq_float {word : String} {n : Numeral}
    (hread : Numeral.ofChars? word.toList = some n)
    (hkind : n.integer?.bind Json.Integer.ofInt? = none) :
    ∃ x : Double, x.IsNearest (n.decimal.toRat n.negative) ∧
      ofText word = if x.isFinite then .ok (.float x) else .error .malformed := by
  refine ⟨_, Double.isNearest_ofDecimal n.negative n.decimal, ?_⟩
  rw [ofText_of_literal (ofText?_numeral hread), Literal.value?, Numeral.value?_eq_float? hkind,
    Numeral.map_ofTree_float?]
  generalize Double.ofDecimal n.negative n.decimal = x
  cases x.isFinite <;> rfl

/-- An integer that needs all 64 bits for its magnitude is read as an integer, and becomes the nearest
double on the way from the tree to the value. -/
theorem ofText_eq_float_of_unsigned {n : Int} (hlow : 2 ^ 63 ≤ n) (hhigh : n < 2 ^ 64) :
    ∃ x : Double, x.IsNearest n ∧
      ofText (toString n) = if x.isFinite then .ok (.float x) else .error .malformed := by
  have hmost : Int64.maxValue.toInt = 2 ^ 63 - 1 := by decide
  have hrange : Int64.minValue.toInt ≤ n ∧ n < UInt64.size := by
    have hleast : Int64.minValue.toInt = -2 ^ 63 := by decide
    have hsize : ((UInt64.size : Nat) : Int) = 2 ^ 64 := by decide
    omega
  have htree : (Numeral.ofInt n).tree? = some (.int ⟨n, hrange⟩) := by
    rw [Numeral.tree?, Numeral.integer?_ofInt, Option.bind_some, Json.Integer.ofInt?, dif_pos hrange]
  have hvalue : (Numeral.ofInt n).value? = some (.float (.ofInt n)) := by
    have hbeyond : ¬ n ≤ Int64.maxValue.toInt := by omega
    rw [Numeral.value?, htree, Option.map_some, ofTree, ofInteger, if_neg hbeyond]
  have hfinite : (Double.ofInt n).isFinite = true := Double.isFinite_ofInt (by omega)
  refine ⟨_, Double.isNearest_ofInt n, ?_⟩
  rw [if_pos hfinite]
  exact (ofText_eq_ok_iff (ofText?_numeral (Numeral.ofChars?_toString n))).mpr hvalue

/-- An integer within 64 bits is read as an integer, and any other as the nearest double, or not at
all if that is infinite. With a fraction or an exponent a number is a double even if it is whole, and
so is minus zero. Wherever a number stands inside arrays and objects it is read as it is alone. -/
theorem ofText_number_kind :
    (∀ n : Int, -2 ^ 63 ≤ n → n < 2 ^ 63 →
      ∃ i : Int64, i.toInt = n ∧ ofText (toString n) = .ok (.int i)) ∧
    (∀ n : Int, n < -2 ^ 63 ∨ 2 ^ 63 ≤ n → ∃ x : Double, x.IsNearest n ∧
      ofText (toString n) = if x.isFinite then .ok (.float x) else .error .malformed) ∧
    (∀ word numeral, Numeral.ofChars? word.toList = some numeral →
      '.' ∈ word.toList ∨ 'e' ∈ word.toList ∨ 'E' ∈ word.toList →
        ∃ x : Double, x.IsNearest (numeral.decimal.toRat numeral.negative) ∧
          ofText word = if x.isFinite then .ok (.float x) else .error .malformed) ∧
    ofText "-0" = .ok (.float (.finite true ⟨0, by decide⟩)) ∧
    ∀ (place : Literal.Place) word numeral text, Numeral.ofChars? word.toList = some numeral →
      Literal.ofText? text = some (place.fill (.number numeral)) →
        (∀ v, ofText text = .ok v →
          ∃ x, ofText word = .ok x ∧ (place.Lasting → v.inside? place.steps = some x)) ∧
        ∀ x blank around, ofText word = .ok x → Literal.ofText? blank = some (place.fill .null) →
          ofText blank = .ok around → ∃ v, ofText text = .ok v := by
  refine ⟨?_, ?_, ?_, ?_, ?_⟩
  · intro n hlow hhigh
    have hinteger : (Int64.ofInt n).toInt = n := Int64.toInt_ofInt_of_le hlow hhigh
    have hvalue := Numeral.value?_ofInt (Int64.ofInt n)
    rw [hinteger] at hvalue
    exact ⟨_, hinteger,
      (ofText_eq_ok_iff (ofText?_numeral (Numeral.ofChars?_toString n))).mpr hvalue⟩
  · intro n hrange
    by_cases hunsigned : 2 ^ 63 ≤ n ∧ n < 2 ^ 64
    · exact ofText_eq_float_of_unsigned hunsigned.1 hunsigned.2
    · have houtside : ¬ (Int64.minValue.toInt ≤ n ∧ n < UInt64.size) := by
        have hleast : Int64.minValue.toInt = -2 ^ 63 := by decide
        have hsize : ((UInt64.size : Nat) : Int) = 2 ^ 64 := by decide
        omega
      have hkind : (Numeral.ofInt n).integer?.bind Json.Integer.ofInt? = none := by
        rw [Numeral.integer?_ofInt, Option.bind_some, Json.Integer.ofInt?, dif_neg houtside]
      have hfloat := ofText_eq_float (Numeral.ofChars?_toString n) hkind
      rwa [Numeral.toRat_ofInt] at hfloat
  · intro word numeral hread hmark
    have hintegral : numeral.integral = false := by
      rw [Bool.eq_false_iff]
      intro hintegral
      have hdigits := Numeral.eq_minus_or_isDigit_of_integral hread hintegral
      rcases hmark with hmark | hmark | hmark <;> exact absurd (hdigits _ hmark) (by decide)
    have hnone : numeral.integer? = none := by
      rw [Numeral.integer?, hintegral]
      rfl
    exact ofText_eq_float hread (by rw [hnone, Option.bind_none])
  · have hread : Numeral.ofChars? "-0".toList = some ⟨true, ⟨0, 0⟩, true⟩ := rfl
    exact (ofText_eq_ok_iff (ofText?_numeral hread)).mpr rfl
  · intro place word numeral text hread htext
    have hword := ofText?_numeral hread
    refine ⟨fun v hv => ?_, fun x blank around hx hblank haround => ?_⟩
    · obtain ⟨below, x, hx, hinside⟩ := place.inside?_of_value?_fill ((ofText_eq_ok_iff htext).mp hv)
      exact ⟨x, (ofText_eq_ok_iff hword).mpr hx, hinside⟩
    · have hnumber : numeral.value? = some x := (ofText_eq_ok_iff hword).mp hx
      have hother (room : Nat) : ∃ x, (Literal.number numeral).value? room = some x :=
        ⟨x, hnumber⟩
      obtain ⟨v, hv⟩ := place.exists_value?_fill hother ((ofText_eq_ok_iff hblank).mp haround)
      exact ⟨v, (ofText_eq_ok_iff htext).mpr hv⟩

/-- The last integer of 64 bits is one and the next is a double; so is a hundred with an exponent, and
minus zero inside an array. -/
theorem ofText_number_kind_at_limits :
    (∃ i : Int64, i.toInt = 9223372036854775807 ∧
      ofText (toString (9223372036854775807 : Int)) = .ok (.int i)) ∧
    (∃ x : Double, x.IsNearest (9223372036854775808 : Int) ∧
      ofText (toString (9223372036854775808 : Int)) =
        if x.isFinite then .ok (.float x) else .error .malformed) ∧
    (∃ x : Double, x.IsNearest (Decimal.toRat false ⟨1, 2⟩) ∧
      ofText "1e2" = if x.isFinite then .ok (.float x) else .error .malformed) ∧
    ∃ v, ofText "[null,[-0]]" = .ok v ∧
      v.inside? [.item 1, .item 0] = some (.float (.finite true ⟨0, by decide⟩)) := by
  obtain ⟨hint, hbeyond, hmark, hminus, hplace⟩ := ofText_number_kind
  refine ⟨hint 9223372036854775807 (by norm_num) (by norm_num),
    hbeyond 9223372036854775808 (Or.inr (by norm_num)), ?_, ?_⟩
  · have hexponent : Numeral.ofChars? "1e2".toList = some ⟨false, ⟨1, 2⟩, false⟩ := rfl
    exact hmark "1e2" ⟨false, ⟨1, 2⟩, false⟩ hexponent (Or.inr (Or.inl (by decide)))
  · have hzero : Numeral.ofChars? "-0".toList = some ⟨true, ⟨0, 0⟩, true⟩ := rfl
    have htext : Literal.ofText? "[null,[-0]]" =
        some (.array [.null, .array [.number ⟨true, ⟨0, 0⟩, true⟩]]) := rfl
    have hblank : Literal.ofText? "[null,[null]]" = some (.array [.null, .array [.null]]) := rfl
    have haround : ofText "[null,[null]]" = .ok (.arr [.null, .arr [.null]]) := rfl
    obtain ⟨hinside, hread⟩ := hplace (.item [.null] (.item [] .whole []) []) "-0"
      ⟨true, ⟨0, 0⟩, true⟩ "[null,[-0]]" hzero htext
    obtain ⟨v, hv⟩ := hread _ "[null,[null]]" _ hminus hblank haround
    obtain ⟨x, hx, hplaced⟩ := hinside v hv
    rw [hminus] at hx
    obtain rfl := Except.ok.inj hx
    exact ⟨v, hv, hplaced trivial⟩

end Value

end DocQuery
