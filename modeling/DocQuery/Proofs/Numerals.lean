import DocQuery.Json.Value
import DocQuery.Proofs.Rounding
import DocQuery.Value.Literal

/-! Written numbers are read as the numbers that they were: integers as integers, and doubles, whose
writing always has a fraction or an exponent, as doubles. -/

namespace DocQuery

/-- The characters of an integer: its sign, and the digits of its magnitude. -/
theorem toList_toString_int (n : Int) :
    (toString n).toList = (if n < 0 then ['-'] else []) ++ Nat.toDigits 10 n.natAbs := by
  cases n with
  | ofNat m =>
    have hsign : ¬ (Int.ofNat m < 0) := Int.not_lt.mpr (Int.natCast_nonneg m)
    rw [if_neg hsign]
    exact (congrArg String.toList Nat.repr_eq_ofList_toDigits).trans String.toList_ofList
  | negSucc m =>
    rw [if_pos (Int.negSucc_lt_zero m)]
    have hdigits : (Nat.repr (m + 1)).toList = Nat.toDigits 10 (m + 1) :=
      (congrArg String.toList Nat.repr_eq_ofList_toDigits).trans String.toList_ofList
    change ("-" ++ Nat.repr (m + 1)).toList = _
    rw [String.toList_append, hdigits]
    rfl

theorem isDigit_of_mem_toDigits {n : Nat} : ∀ c ∈ Nat.toDigits 10 n, c.isDigit = true :=
  fun _ h => Nat.isDigit_of_mem_toDigits (by decide) (by decide) h

/-- No number but zero begins with a zero. -/
theorem exists_toDigits_eq_cons {n : Nat} (h : n ≠ 0) :
    ∃ c cs, Nat.toDigits 10 n = c :: cs ∧ c ≠ '0' := by
  induction n using Nat.strongRecOn with
  | ind n ih =>
    rw [Nat.toDigits_eq_if (by decide)]
    split
    · rename_i hlt
      have hdigit : ∀ m < 10, m ≠ 0 → Nat.digitChar m ≠ '0' := by decide
      exact ⟨_, [], rfl, hdigit n hlt h⟩
    · -- the first digit of a tenth of the number is the number's own
      obtain ⟨c, cs, hdigits, hc⟩ := ih (n / 10) (by omega) (by omega)
      rw [hdigits]
      exact ⟨c, _, rfl, hc⟩

namespace Json.Numeral

theorem isWhole_singleton (c : Char) : isWhole [c] = true := by
  by_cases h : c = '0'
  · rw [h]
    rfl
  · simp [isWhole, h]

theorem isWhole_cons {c : Char} (h : c ≠ '0') (cs : List Char) : isWhole (c :: cs) = true := by
  simp [isWhole, h]

theorem isWhole_toDigits (n : Nat) : isWhole (Nat.toDigits 10 n) = true := by
  by_cases h : n = 0
  · rw [h, Nat.toDigits_zero]
    rfl
  · obtain ⟨c, cs, hdigits, hc⟩ := exists_toDigits_eq_cons h
    rw [hdigits]
    exact isWhole_cons hc cs

theorem ne_nil_of_isWhole {digits : List Char} (h : isWhole digits = true) : digits ≠ [] := by
  intro hnil
  rw [hnil] at h
  cases h

/-- The characters that numbers are written with. -/
def Numeric (c : Char) : Prop := c.isDigit = true ∨ c ∈ ['-', '+', '.', 'e', 'E']

theorem numeric_of_digits {c : Char} {cs : List Char} (h : c ∈ cs) :
    Numeric c ∨ c ∈ cs.dropWhile Char.isDigit := by
  rw [← List.takeWhile_append_dropWhile (p := Char.isDigit) (l := cs)] at h
  rcases List.mem_append.mp h with hc | hc
  · exact Or.inl (Or.inl (List.all_eq_true.mp List.all_takeWhile c hc))
  · exact Or.inr hc

theorem numeric_of_sign {c : Char} {word : List Char} (h : c ∈ word) :
    Numeric c ∨ c ∈ (sign word).2 := by
  unfold sign
  split
  · exact (List.mem_cons.mp h).imp_left fun hc => Or.inr (by simp [hc])
  · exact Or.inr h

theorem numeric_of_fraction? {c : Char} {cs fraction after : List Char}
    (hread : fraction? cs = some (fraction, after)) (h : c ∈ cs) : Numeric c ∨ c ∈ after := by
  unfold fraction? at hread
  split at hread
  · dsimp only at hread
    split at hread
    · cases hread
    · cases hread
      rcases List.mem_cons.mp h with hc | hc
      · exact Or.inl (Or.inr (by simp [hc]))
      · exact numeric_of_digits hc
  · cases hread
    exact Or.inr h

theorem numeric_of_power? {c : Char} {cs : List Char} {k : Int} (hread : power? cs = some k)
    (h : c ∈ cs) : Numeric c := by
  have hdigits {digits : List Char} {k? : Option Int} (hc : c ∈ digits)
      (hread : (if digits.isEmpty || !digits.all Char.isDigit then none else k?) = some k) :
      Numeric c := by
    cases hall : digits.all Char.isDigit with
    | true => exact Or.inl (List.all_eq_true.mp hall c hc)
    | false =>
      rw [hall, Bool.not_false, Bool.or_true, if_pos rfl] at hread
      cases hread
  unfold power? at hread
  split at hread
  rename_i hparts
  split at hparts
  · cases hparts
    rcases List.mem_cons.mp h with hc | hc
    · exact Or.inr (by simp [hc])
    · exact hdigits hc hread
  · cases hparts
    rcases List.mem_cons.mp h with hc | hc
    · exact Or.inr (by simp [hc])
    · exact hdigits hc hread
  · cases hparts
    exact hdigits h hread

theorem numeric_of_exponent? {c : Char} {cs : List Char} {exponent : Option Int}
    (hread : exponent? cs = some exponent) (h : c ∈ cs) : Numeric c := by
  unfold exponent? at hread
  split at hread
  · cases h
  · split at hread
    · rename_i hletter
      obtain ⟨k, hpower, _⟩ := Option.map_eq_some_iff.mp hread
      rcases List.mem_cons.mp h with rfl | hc
      · exact Or.inr (by rcases hletter with rfl | rfl <;> simp)
      · exact numeric_of_power? hpower hc
    · cases hread

/-- Whatever is read as a number is written with these characters alone. -/
theorem numeric_of_ofChars? {c : Char} {word : List Char} {n : Numeral}
    (hread : ofChars? word = some n) (h : c ∈ word) : Numeric c := by
  rcases numeric_of_sign h with hc | hc
  · exact hc
  · unfold ofChars? at hread
    dsimp only at hread
    split at hread
    · obtain ⟨⟨fraction, after⟩, hfraction, hread⟩ := Option.bind_eq_some_iff.mp hread
      obtain ⟨exponent, hexponent, _⟩ := Option.bind_eq_some_iff.mp hread
      rcases numeric_of_digits hc with hc | hc
      · exact hc
      · rcases numeric_of_fraction? hfraction hc with hc | hc
        · exact hc
        · exact numeric_of_exponent? hexponent hc
    · cases hread

/-- What comes after digits that all belong to one number. -/
def Ends (rest : List Char) : Prop := ∀ c cs, rest = c :: cs → c.isDigit = false

theorem ends_nil : Ends [] := nofun

theorem ends_cons {c : Char} (h : c.isDigit = false) (cs : List Char) : Ends (c :: cs) := by
  intro d ds heq
  rw [← (List.cons.inj heq).1]
  exact h

theorem takeWhile_digits {digits rest : List Char} (h : ∀ c ∈ digits, c.isDigit = true)
    (hends : Ends rest) : (digits ++ rest).takeWhile Char.isDigit = digits := by
  rw [List.takeWhile_append_of_pos h]
  cases rest with
  | nil => exact List.append_nil digits
  | cons c cs => rw [List.takeWhile_cons_of_neg (by simp [hends c cs rfl]), List.append_nil]

theorem dropWhile_digits {digits rest : List Char} (h : ∀ c ∈ digits, c.isDigit = true)
    (hends : Ends rest) : (digits ++ rest).dropWhile Char.isDigit = rest := by
  rw [List.dropWhile_append_of_pos h]
  cases rest with
  | nil => rfl
  | cons c cs => exact List.dropWhile_cons_of_neg (by simp [hends c cs rfl])

/-- What begins with a digit does not begin with a mark. -/
theorem digits_ne_cons {digits : List Char} (h : ∀ c ∈ digits, c.isDigit = true)
    (hne : digits ≠ []) (mark : Char) (hmark : mark.isDigit = false) (rest after : List Char) :
    digits ++ rest ≠ mark :: after := by
  cases digits with
  | nil => exact absurd rfl hne
  | cons c digits =>
    intro heq
    have hc : c = mark := (List.cons.inj heq).1
    have hdigit : c.isDigit = true := h c List.mem_cons_self
    rw [hc, hmark] at hdigit
    cases hdigit

theorem sign_append (negative : Bool) {cs : List Char} (h : ∀ rest, cs ≠ '-' :: rest) :
    sign ((if negative then ['-'] else []) ++ cs) = (negative, cs) := by
  cases negative with
  | true => rfl
  | false =>
    change sign cs = _
    unfold sign
    split
    · exact absurd rfl (h _)
    · rfl

theorem fraction?_point {digits rest : List Char} (h : ∀ c ∈ digits, c.isDigit = true)
    (hne : digits ≠ []) (hends : Ends rest) :
    fraction? ('.' :: (digits ++ rest)) = some (digits, rest) := by
  rw [fraction?, takeWhile_digits h hends, dropWhile_digits h hends, if_neg]
  simpa using hne

theorem power?_digits (negative : Bool) {digits : List Char} (h : ∀ c ∈ digits, c.isDigit = true)
    (hne : digits ≠ []) :
    power? ((if negative then ['-'] else []) ++ digits) =
      some (if negative then -(Nat.ofDigitChars 10 digits 0 : Int)
        else (Nat.ofDigitChars 10 digits 0 : Int)) := by
  have hdigits : (digits.isEmpty || !digits.all Char.isDigit) = false := by
    rw [List.isEmpty_eq_false_iff.mpr hne, List.all_eq_true.mpr h]
    rfl
  have hsign {mark : Char} (hmark : mark.isDigit = false) (rest : List Char) :
      digits ≠ mark :: rest := by
    intro heq
    exact digits_ne_cons h hne mark hmark [] rest (by rw [List.append_nil, heq])
  cases negative with
  | true => simp only [power?, if_true, List.singleton_append, hdigits, Bool.false_eq_true, if_false]
  | false =>
    change power? digits = _
    unfold power?
    split
    rename_i hparts
    -- a digit is no sign
    split at hparts
    · exact absurd rfl (hsign rfl _)
    · exact absurd rfl (hsign rfl _)
    · cases hparts
      rw [hdigits]
      rfl

/-- A signed run of digits is an exponent. -/
theorem power?_toString (k : Int) : power? (toString k).toList = some k := by
  have hread := power?_digits (decide (k < 0)) isDigit_of_mem_toDigits
    (Nat.toDigits_ne_nil (n := k.natAbs))
  simp only [decide_eq_true_eq, Nat.ofDigitChars_ten_toDigits] at hread
  rw [toList_toString_int, hread]
  congr 1
  split <;> omega

/-- A number is read part by part. -/
theorem ofChars?_eq (negative : Bool) {whole rest fraction after : List Char}
    {exponent : Option Int} (hdigits : ∀ c ∈ whole, c.isDigit = true)
    (hwhole : isWhole whole = true) (hends : Ends rest)
    (hfraction : fraction? rest = some (fraction, after))
    (hexponent : exponent? after = some exponent) :
    ofChars? ((if negative then ['-'] else []) ++ (whole ++ rest)) = some
      { negative
        decimal := ⟨Nat.ofDigitChars 10 (whole ++ fraction) 0, exponent.getD 0 - fraction.length⟩
        integral := fraction.isEmpty && exponent.isNone } := by
  have hsign := sign_append negative
    (digits_ne_cons hdigits (ne_nil_of_isWhole hwhole) '-' rfl rest)
  unfold ofChars?
  rw [hsign]
  dsimp only
  rw [takeWhile_digits hdigits hends, dropWhile_digits hdigits hends, if_pos hwhole, hfraction]
  dsimp only [Option.bind_eq_bind, Option.bind_some]
  rw [hexponent]
  rfl

theorem ofChars?_toString (n : Int) : ofChars? (toString n).toList = some (ofInt n) := by
  have hread := ofChars?_eq (decide (n < 0)) isDigit_of_mem_toDigits (isWhole_toDigits n.natAbs)
    ends_nil rfl rfl
  simp only [List.append_nil, Nat.ofDigitChars_ten_toDigits, decide_eq_true_eq] at hread
  rw [toList_toString_int, hread]
  rfl

/-- A point between two runs of digits. -/
theorem ofChars?_point (negative : Bool) {whole fraction : List Char}
    (hwhole : ∀ c ∈ whole, c.isDigit = true) (hform : isWhole whole = true)
    (hfraction : ∀ c ∈ fraction, c.isDigit = true) (hne : fraction ≠ []) :
    ofChars? ((if negative then ['-'] else []) ++ (whole ++ '.' :: fraction)) = some
      ⟨negative, ⟨Nat.ofDigitChars 10 (whole ++ fraction) 0, -fraction.length⟩, false⟩ := by
  have hpoint : fraction? ('.' :: fraction) = some (fraction, []) := by
    have hread := fraction?_point hfraction hne ends_nil
    rw [List.append_nil] at hread
    exact hread
  rw [ofChars?_eq negative hwhole hform (ends_cons rfl _) hpoint rfl,
    List.isEmpty_eq_false_iff.mpr hne]
  simp

theorem isDigit_of_mem_digits (d : Decimal) : ∀ c ∈ d.digits, c.isDigit = true :=
  isDigit_of_mem_toDigits

theorem isDigit_of_mem_zeros (n : Nat) : ∀ c ∈ List.replicate n '0', c.isDigit = true := by
  intro c hc
  rw [List.eq_of_mem_replicate hc]
  rfl

theorem ofDigitChars_digits (d : Decimal) : Nat.ofDigitChars 10 d.digits 0 = d.significand :=
  Nat.ofDigitChars_ten_toDigits

/-- Zeros up to the point, and one after it. -/
theorem ofChars?_zeros (negative : Bool) {d : Decimal}
    (hzero : d.significand = 0 → d.exponent = 0) :
    ofChars? ((if negative then ['-'] else []) ++
        (d.digits ++ List.replicate d.exponent.toNat '0' ++ ['.', '0'])) =
      some ⟨negative, ⟨d.significand * Nat.pow 10 (d.exponent.toNat + 1), -1⟩, false⟩ := by
  have hform : isWhole (d.digits ++ List.replicate d.exponent.toNat '0') = true := by
    by_cases h : d.significand = 0
    · rw [hzero h, Decimal.digits, h]
      rfl
    · obtain ⟨c, cs, hd, hc⟩ := exists_toDigits_eq_cons h
      rw [Decimal.digits, hd]
      exact isWhole_cons hc _
  have hwhole : ∀ c ∈ d.digits ++ List.replicate d.exponent.toNat '0', c.isDigit = true :=
    fun c hc => (List.mem_append.mp hc).elim (isDigit_of_mem_digits d c) (isDigit_of_mem_zeros _ c)
  have hvalue : Nat.ofDigitChars 10
      (d.digits ++ List.replicate d.exponent.toNat '0' ++ List.replicate 1 '0') 0 =
        d.significand * Nat.pow 10 (d.exponent.toNat + 1) := by
    rw [List.append_assoc, List.replicate_append_replicate, Nat.ofDigitChars_append,
      ofDigitChars_digits, Nat.ofDigitChars_replicate_zero, Nat.mul_comm]
    rfl
  have hread := ofChars?_point negative hwhole hform (isDigit_of_mem_zeros 1) (by decide)
  rw [hvalue] at hread
  exact hread

/-- Digits on both sides of the point. -/
theorem ofChars?_within (negative : Bool) {d : Decimal} (hexponent : d.exponent < 0)
    (hsignificand : d.significand ≠ 0) (hleading : 0 ≤ d.leading) :
    ofChars? ((if negative then ['-'] else []) ++
        (d.digits.take (d.leading.toNat + 1) ++ '.' :: d.digits.drop (d.leading.toNat + 1))) =
      some ⟨negative, d, false⟩ := by
  have hform : isWhole (d.digits.take (d.leading.toNat + 1)) = true := by
    obtain ⟨c, cs, hd, hc⟩ := exists_toDigits_eq_cons hsignificand
    rw [Decimal.digits, hd]
    exact isWhole_cons hc _
  have hcount : ((d.digits.drop (d.leading.toNat + 1)).length : Int) = -d.exponent := by
    have hdigits : d.leading = d.digits.length - 1 + d.exponent := rfl
    rw [List.length_drop]
    omega
  have hne : d.digits.drop (d.leading.toNat + 1) ≠ [] := by
    intro hnil
    rw [hnil, List.length_nil] at hcount
    omega
  rw [ofChars?_point negative
    (fun c hc => isDigit_of_mem_digits d c (List.mem_of_mem_take hc)) hform
    (fun c hc => isDigit_of_mem_digits d c (List.mem_of_mem_drop hc)) hne,
    List.take_append_drop, ofDigitChars_digits, hcount, Int.neg_neg]

/-- A zero before the point, and zeros after it before the first digit. -/
theorem ofChars?_below (negative : Bool) {d : Decimal} (hleading : d.leading < 0) :
    ofChars? ((if negative then ['-'] else []) ++
        ('0' :: '.' :: List.replicate (-d.leading - 1).toNat '0' ++ d.digits)) =
      some ⟨negative, d, false⟩ := by
  have hcount : ((List.replicate (-d.leading - 1).toNat '0' ++ d.digits).length : Int) =
      -d.exponent := by
    have hdigits : d.leading = d.digits.length - 1 + d.exponent := rfl
    rw [List.length_append, List.length_replicate]
    omega
  have hfraction : ∀ c ∈ List.replicate (-d.leading - 1).toNat '0' ++ d.digits,
      c.isDigit = true :=
    fun c hc => (List.mem_append.mp hc).elim (isDigit_of_mem_zeros _ c) (isDigit_of_mem_digits d c)
  have hvalue : Nat.ofDigitChars 10
      (List.replicate 1 '0' ++ (List.replicate (-d.leading - 1).toNat '0' ++ d.digits)) 0 =
        d.significand := by
    rw [← List.append_assoc, List.replicate_append_replicate, Nat.ofDigitChars_append,
      Nat.ofDigitChars_replicate_zero, Nat.mul_zero, ofDigitChars_digits]
  have hread := ofChars?_point negative (isDigit_of_mem_zeros 1) rfl hfraction
    (List.append_ne_nil_of_right_ne_nil _ Nat.toDigits_ne_nil)
  rw [hvalue, hcount, Int.neg_neg] at hread
  exact hread

/-- The positional writing of a decimal, if a zero comes without a power of ten. -/
theorem ofChars?_positional (negative : Bool) {d : Decimal}
    (hzero : d.significand = 0 → d.exponent = 0) :
    ofChars? ((if negative then ['-'] else []) ++ d.positional) =
      some ⟨negative, d.pointed, false⟩ := by
  unfold Decimal.positional Decimal.pointed
  by_cases hexponent : 0 ≤ d.exponent
  · rw [if_pos hexponent, if_pos hexponent]
    exact ofChars?_zeros negative hzero
  · rw [if_neg hexponent, if_neg hexponent]
    -- only a number other than zero has digits after the point of its own
    have hsignificand : d.significand ≠ 0 := fun h => hexponent (hzero h ▸ Int.le_refl 0)
    by_cases hleading : 0 ≤ d.leading
    · rw [if_pos hleading]
      exact ofChars?_within negative (Int.not_le.mp hexponent) hsignificand hleading
    · rw [if_neg hleading]
      exact ofChars?_below negative (Int.not_le.mp hleading)

theorem ofChars?_scientific (negative : Bool) (d : Decimal) :
    ofChars? ((if negative then ['-'] else []) ++ d.scientific) = some ⟨negative, d, false⟩ := by
  have hpower : exponent? ('e' :: (toString d.leading).toList) = some (some d.leading) :=
    congrArg (Option.map some) (power?_toString d.leading)
  have hends : Ends ('e' :: (toString d.leading).toList) := ends_cons rfl _
  unfold Decimal.scientific
  cases hd : d.digits with
  | nil => exact absurd hd Nat.toDigits_ne_nil
  | cons c cs =>
    have hdigits := isDigit_of_mem_digits d
    have hvalue := ofDigitChars_digits d
    rw [hd] at hdigits hvalue
    obtain ⟨hc, hcs⟩ := List.forall_mem_cons.mp hdigits
    have hfirst : ∀ x ∈ [c], x.isDigit = true := List.forall_mem_singleton.mpr hc
    have hdecimal : (⟨Nat.ofDigitChars 10 (c :: cs) 0, d.leading - cs.length⟩ : Decimal) = d := by
      have hexponent : d.leading - cs.length = d.exponent := by
        rw [Decimal.leading, hd, List.length_cons]
        omega
      rw [hvalue, hexponent]
    have hnumeral := congrArg (fun e => some (Numeral.mk negative e false)) hdecimal
    cases cs with
    | nil =>
      have hread := ofChars?_eq negative hfirst (isWhole_singleton c) hends rfl hpower
      exact hread.trans hnumeral
    | cons c' cs =>
      have hpoint := fraction?_point hcs (List.cons_ne_nil c' cs) hends
      have hread := ofChars?_eq negative hfirst (isWhole_singleton c) (ends_cons rfl _) hpoint hpower
      exact hread.trans hnumeral

/-- In whichever way a decimal is written, the numeral has its value and is no integer. -/
theorem ofChars?_write (negative : Bool) (layout : Decimal.Layout) {d : Decimal}
    (hzero : d.significand = 0 → d.exponent = 0) :
    ofChars? ((if negative then ['-'] else []) ++ d.write layout) =
      some ⟨negative, d.spelled layout, false⟩ := by
  unfold Decimal.write Decimal.spelled
  by_cases hlayout : layout.leastPositional ≤ d.leading ∧ d.leading < layout.positionalBelow
  · rw [if_pos hlayout, if_pos hlayout]
    exact ofChars?_positional negative hzero
  · rw [if_neg hlayout, if_neg hlayout]
    exact ofChars?_scientific negative d

theorem ofChars?_floatChars (negative : Bool) (rank : Fin Double.rankCount) :
    ofChars? (Value.floatChars (.finite negative rank)) = some (ofRank negative rank) := by
  apply ofChars?_write negative Value.floatLayout
  intro hsignificand
  by_cases hrank : rank.val = 0
  · rw [hrank]
    rfl
  · exact absurd hsignificand (Double.shortest_significand_ne_zero hrank)

theorem equivalent_spelled (layout : Decimal.Layout) (d : Decimal) :
    (d.spelled layout).Equivalent d := by
  unfold Decimal.spelled
  split
  · unfold Decimal.pointed
    split
    · rename_i hexponent
      have hzero : (-d.exponent).toNat = 0 := by omega
      have hpow : Nat.pow 10 (d.exponent.toNat + 1) = Nat.pow 10 d.exponent.toNat * 10 := rfl
      simp only [Decimal.Equivalent, Decimal.num, Decimal.den, hzero, hpow]
      change d.significand * (Nat.pow 10 d.exponent.toNat * 10) * 1 * 1 =
        d.significand * Nat.pow 10 d.exponent.toNat * 10
      rw [Nat.mul_one, Nat.mul_one, Nat.mul_assoc]
    · rfl
  · rfl

theorem integer?_ofInt (n : Int) : (ofInt n).integer? = some n := by
  unfold integer? ofInt
  dsimp only
  rw [if_pos rfl]
  by_cases hneg : n < 0
  · rw [if_pos (decide_eq_true hneg), if_neg (by omega)]
    congr 1
    omega
  · rw [if_neg (by simpa using hneg)]
    congr 1
    omega

theorem value?_ofInt (n : Int64) : (ofInt n.toInt).value? = some (.int n) := by
  rw [value?, tree?, integer?_ofInt, Option.bind_some, Integer.ofInt?_toInt]
  exact congrArg some (Value.ofInteger_ofInt64 n)

theorem value?_ofRank (negative : Bool) (rank : Fin Double.rankCount) :
    (ofRank negative rank).value? = some (.float (.finite negative rank)) := by
  have hread : Double.ofDecimal (ofRank negative rank).negative (ofRank negative rank).decimal =
      .finite negative rank :=
    Double.ofDecimal_of_equivalent_shortest negative rank (equivalent_spelled Value.floatLayout _)
  have htree : (ofRank negative rank).tree? = (ofRank negative rank).float? := rfl
  rw [value?, htree, map_ofTree_float?, hread]
  rfl

end Json.Numeral

end DocQuery
