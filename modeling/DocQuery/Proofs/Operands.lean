import DocQuery.Proofs.Nearest
import DocQuery.Proofs.WholeNumbers
import DocQuery.Proofs.Zeros
import DocQuery.Query.Rules
import DocQuery.Value.Canonical

/-! Paths, equality and order by the rules are those that an evaluation uses. The names of a path
are its keys. Objects that keep their members in order hold the same under the same names just if
they are equal member by member. Measures put doubles in the order of their exact values, an integer
has one double to widen to, and a double as an integer is its whole part, as far as the integers go.
-/

namespace DocQuery

namespace Path

/-- The names between the separators are the keys of the path. -/
theorem splitOn_eq_split (separator : Char) (cs : List Char) :
    cs.splitOn separator = (split separator cs).1 :: (split separator cs).2 := by
  induction cs with
  | nil => exact List.splitOn_nil separator
  | cons c cs ih =>
    rw [List.splitOn, List.splitOnP_cons_eq_if_modifyHead, ← List.splitOn, ih]
    by_cases h : c = separator
    · simp [split, h]
    · simp [split, h]

open Query.Rules (member?)

theorem foldlM_member? (value : Value) (keys : List String) :
    keys.foldlM member? value = follow value keys := by
  induction keys generalizing value with
  | nil => rfl
  | cons key keys ih =>
    rw [List.foldlM_cons, funext ih]
    cases value <;> rfl

end Path

/-- The names of a path lead to what the path resolves to. -/
theorem Query.Rules.resolve_eq (separator : Char) (path : String) (document : Document) :
    resolve separator path document = document.resolve separator path := by
  rw [resolve, Path.splitOn_eq_split, List.map_cons, Path.foldlM_member?]
  rfl

namespace Double

/-- NaN has no value and no units, and of every other double the one measures the other. -/
theorem measured_or_nan (x : Double) :
    (x.exactValue? = none ∧ x.units? = none) ∨
      ∃ units e, x.exactValue? = some e ∧ x.units? = some units ∧ Exact.Measures units e := by
  cases hx : x.exactValue? with
  | none =>
    cases x with
    | nan => exact Or.inl ⟨rfl, rfl⟩
    | infinite negative => cases hx
    | finite negative rank => cases hx
  | some e =>
    obtain ⟨units, hunits, hmeasures⟩ := exists_measures hx
    exact Or.inr ⟨units, e, rfl, hunits, hmeasures⟩

/-- Doubles are equal if they have one exact value. -/
theorem exactValue?_eq_iff_equals (x y : Double) :
    (x.exactValue?.isSome && x.exactValue? == y.exactValue?) = x.equals y := by
  rw [Bool.eq_iff_iff, equals_iff, Bool.and_eq_true, beq_iff_eq]
  rcases x.measured_or_nan with ⟨hx, hxunits⟩ | ⟨units, e, hx, hxunits, hmeasures⟩
  · simp [hx, hxunits]
  · rcases y.measured_or_nan with ⟨hy, hyunits⟩ | ⟨others, f, hy, hyunits, hothers⟩
    · simp [hx, hy, hyunits]
    · have hsame := hmeasures.eq_iff hothers
      simp [hx, hy, hxunits, hyunits, hsame, eq_comm]

end Double

namespace Exact

/-- Measures compare as what they measure. -/
theorem Measures.cmp_eq {units others : Int} {x y : Exact} (hx : Measures units x)
    (hy : Measures others y) : cmp x y = compare units others :=
  (cmp_compares x y).inj (hx.compares hy)

theorem ofRat_lt_ofRat {p q : ℚ} : ofRat p < ofRat q ↔ p < q :=
  WithBot.coe_lt_coe.trans WithTop.coe_lt_coe

theorem cmp_ofRat (i j : Int) : cmp (ofRat i) (ofRat j) = compare i j := by
  apply (cmp_compares _ _).inj
  rcases Int.lt_trichotomy i j with hlt | rfl | hgt
  · rw [Int.compare_eq_lt.mpr hlt]
    exact ofRat_lt_ofRat.mpr (Int.cast_lt.mpr hlt)
  · rw [Int.compare_eq_eq.mpr rfl]
    rfl
  · rw [Int.compare_eq_gt.mpr hgt]
    exact ofRat_lt_ofRat.mpr (Int.cast_lt.mpr hgt)

/-- Of a quotient the whole part is what division toward zero leaves. -/
theorem wholePart_ofRat_div (units : Int) {one : Nat} (h : 0 < one) :
    (ofRat (units / one)).wholePart = ofRat (units.tdiv one : Int) := by
  have hsign : (0 : ℚ) ≤ units / one ↔ 0 ≤ units := by
    rw [le_div_iff₀ (Nat.cast_pos.mpr h), zero_mul, Int.cast_nonneg_iff]
  have hwhole : (if (0 : ℚ) ≤ units / one then (⌊(units / one : ℚ)⌋ : ℚ)
      else ⌈(units / one : ℚ)⌉) = (units.tdiv one : Int) := by
    rw [Rat.floor_intCast_div_natCast, Rat.ceil_intCast_div_natCast]
    by_cases hunits : 0 ≤ units
    · rw [if_pos (hsign.mpr hunits), Int.tdiv_eq_ediv_of_nonneg hunits]
    · -- the ceiling is the opposite of the floor of the opposite
      have hopposite : 0 ≤ -units := by omega
      rw [if_neg (mt hsign.mp hunits), ← Int.tdiv_eq_ediv_of_nonneg hopposite, Int.neg_tdiv,
        Int.neg_neg]
  exact congrArg ofRat hwhole

theorem clamped_ofRat (i : Int) :
    (ofRat i).clamped = ofRat (max Int64.minValue.toInt (min i Int64.maxValue.toInt) : Int) := by
  have hmono : Monotone fun i : Int => ofRat i :=
    fun i j h => ofRat_le_ofRat.mpr (Int.cast_le.mpr h)
  rw [clamped]
  exact (hmono.map_max.trans (congrArg _ hmono.map_min)).symm

end Exact

/-- As an integer a double counts as its whole part, clamped to the integers that there are. -/
theorem Double.clamped_wholePart {x : Double} {e : Exact} (h : x.exactValue? = some e) :
    e.wholePart.clamped = .ofRat x.truncate.toInt := by
  obtain ⟨units, hunits, hmeasures⟩ := exists_measures h
  have htruncate : x.truncate.toInt =
      max Int64.minValue.toInt (min (units.tdiv unitsPerOne) Int64.maxValue.toInt) := by
    rw [truncate, hunits]
    exact toInt_ofIntClamp_eq _
  rw [htruncate]
  -- an infinity has units that lie beyond the integers, so the bound stands for it on both sides
  cases hmeasures with
  | bottom =>
    have hleast : max Int64.minValue.toInt (min ((-(unitsAt rankCount : Int)).tdiv unitsPerOne)
        Int64.maxValue.toInt) = Int64.minValue.toInt := by decide +kernel
    rw [hleast]
    exact max_eq_left ((min_le_left _ _).trans bot_le)
  | finite => rw [Exact.wholePart_ofRat_div _ unitsPerOne_pos, Exact.clamped_ofRat]
  | top =>
    have hmost : max Int64.minValue.toInt (min ((unitsAt rankCount : Int).tdiv unitsPerOne)
        Int64.maxValue.toInt) = Int64.maxValue.toInt := by decide +kernel
    have hbounds : Exact.ofRat Int64.minValue.toInt ≤ .ofRat Int64.maxValue.toInt :=
      Exact.ofRat_le_ofRat.mpr (Int.cast_le.mpr (by decide))
    calc
      Exact.clamped (Exact.wholePart ⊤) =
          max (.ofRat Int64.minValue.toInt) (.ofRat Int64.maxValue.toInt) :=
        congrArg (max _) (min_eq_right le_top)
      _ = .ofRat Int64.maxValue.toInt := max_eq_right hbounds
      _ = _ := by rw [hmost]

namespace Query.Coercion

variable {coercion : Coercion}

theorem compare?_exactValue? (x y : Double) :
    compare? x.exactValue? y.exactValue? = x.compare? y := by
  unfold compare? Double.compare?
  rcases x.measured_or_nan with ⟨hx, hxunits⟩ | ⟨units, e, hx, hxunits, hmeasures⟩
  · rw [hx, hxunits]
    rfl
  · rcases y.measured_or_nan with ⟨hy, hyunits⟩ | ⟨others, f, hy, hyunits, hothers⟩
    · rw [hx, hxunits, hy, hyunits]
      rfl
    · rw [hx, hxunits, hy, hyunits]
      exact congrArg some (hmeasures.cmp_eq hothers)

/-- There is one double to widen an integer to. -/
theorem compare?_widen (m : Int64) (y : Double) :
    compare? (coercion.widen m).exactValue? y.exactValue? = (Double.ofInt m.toInt).compare? y := by
  have hunits := (coercion.nearest m).unique (Double.isNearest_ofInt m.toInt)
  rw [compare?_exactValue?, Double.compare?, Double.compare?, hunits]

/-- Against an integer a double that saturates is ordered as its whole part in 64 bits. -/
theorem compare?_narrow (h : coercion.Saturates) {x : Double} (n : Int64)
    (hnan : x = .nan → coercion.narrow .nan = some (.ofRat (0 : Int))) :
    compare? (coercion.narrow x) (some (.ofRat n.toInt)) =
      some (compare x.truncate.toInt n.toInt) := by
  cases hx : x.exactValue? with
  | none =>
    -- only NaN has no value
    have hisnan : x = .nan := by
      cases x with
      | nan => rfl
      | infinite negative => cases hx
      | finite negative rank => cases hx
    rw [hisnan, hnan hisnan]
    exact congrArg some (Exact.cmp_ofRat 0 n.toInt)
  | some e =>
    rw [h x e hx, Double.clamped_wholePart hx]
    exact congrArg some (Exact.cmp_ofRat _ _)

/-- The rules give the order that an evaluation compares by. -/
theorem order_eq (h : coercion.Saturates) {actual : Value}
    (hnan : actual = .float .nan → coercion.narrow .nan = some (.ofRat (0 : Int)))
    (expected : Value) : coercion.order actual expected = actual.order expected := by
  cases expected with
  | int n =>
    cases actual with
    | int m => exact congrArg (fun o => Except.ok (some o)) (Exact.cmp_ofRat m.toInt n.toInt)
    | float x =>
      have hnarrow := compare?_narrow h (x := x) n fun hx => hnan (congrArg _ hx)
      exact congrArg Except.ok hnarrow
    | null | bool | str | arr | obj => rfl
  | float y =>
    cases actual with
    | int m => exact congrArg Except.ok (compare?_widen m y)
    | float x => exact congrArg Except.ok (compare?_exactValue? x y)
    | null | bool | str | arr | obj => rfl
  | null | bool | str | arr | obj => rfl

end Query.Coercion

namespace Query.Rules

open Value (CanonicalItems CanonicalMembers equalItems equalMembers)

/-- A member whose name comes before all others is not looked for. -/
theorem sameMembers_cons_of_lt {xs : List (String × Value)} {name : String}
    (h : ∀ x ∈ xs, name < x.1) (y : Value) (ys : List (String × Value)) :
    sameMembers xs ((name, y) :: ys) = sameMembers xs ys := by
  induction xs with
  | nil => rfl
  | cons x xs ih =>
    obtain ⟨hx, hxs⟩ := List.forall_mem_cons.mp h
    have hne : x.1 ≠ name := fun he => String.lt_irrefl _ (he ▸ hx)
    rw [sameMembers, sameMembers, Members.lookup_cons, if_neg hne, ih hxs]

/-- Nor is a name found there that comes before all those in question. -/
theorem all_isSome_lookup_cons_of_lt {ys : List (String × Value)} {name : String}
    (h : ∀ y ∈ ys, name < y.1) (x : Value) (xs : List (String × Value)) :
    (ys.all fun y => (((name, x) :: xs).lookup y.1).isSome) =
      ys.all fun y => (xs.lookup y.1).isSome := by
  induction ys with
  | nil => rfl
  | cons y ys ih =>
    obtain ⟨hy, hys⟩ := List.forall_mem_cons.mp h
    have hne : y.1 ≠ name := fun he => String.lt_irrefl _ (he ▸ hy)
    rw [List.all_cons, List.all_cons, ih hys, Members.lookup_cons, if_neg hne]

mutual

/-- Values that are built are the same by the rules just if an evaluation finds them equal. -/
theorem same_eq_equals : (v w : Value) → v.Canonical → w.Canonical → same v w = v.equals w
  | .int m, w, _, _ => by
    cases w with
    | int n =>
      rw [same, Value.equals, Bool.eq_iff_iff, beq_iff_eq, beq_iff_eq]
      exact Int64.toInt_inj
    | null | bool | float | str | arr | obj => rfl
  | .float x, w, _, _ => by
    cases w with
    | float y => exact x.exactValue?_eq_iff_equals y
    | null | bool | int | str | arr | obj => rfl
  | .arr xs, w, hxs, hw => by
    cases w with
    | arr ys => exact sameItems_eq_equalItems xs ys hxs hw
    | null | bool | int | float | str | obj => rfl
  | .obj xs, w, hxs, hw => by
    cases w with
    | obj ys => exact sameMembers_eq_equalMembers xs ys hxs.1 hw.1 hxs.2 hw.2
    | null | bool | int | float | str | arr => rfl
  | .null, w, _, _ | .bool _, w, _, _ | .str _, w, _, _ => by cases w <;> rfl

theorem sameItems_eq_equalItems : (xs ys : List Value) → CanonicalItems xs → CanonicalItems ys →
    sameItems xs ys = equalItems xs ys
  | [], [], _, _ | [], _ :: _, _, _ | _ :: _, [], _, _ => rfl
  | x :: xs, y :: ys, hxs, hys => by
    rw [sameItems, equalItems, same_eq_equals x y hxs.1 hys.1,
      sameItems_eq_equalItems xs ys hxs.2 hys.2]

/-- In order, members that are the same by their names stand in the same places. -/
theorem sameMembers_eq_equalMembers : (xs ys : List (String × Value)) → Members.Ascending xs →
    Members.Ascending ys → CanonicalMembers xs → CanonicalMembers ys →
    ((ys.all fun y => (xs.lookup y.1).isSome) && sameMembers xs ys) = equalMembers xs ys
  | [], [], _, _, _, _ | [], _ :: _, _, _, _, _ | _ :: _, [], _, _, _, _ => rfl
  | (j, x) :: xs, (k, y) :: ys, hxs, hys, hcx, hcy => by
    obtain ⟨hj, hjs⟩ := List.pairwise_cons.mp hxs
    obtain ⟨hk, hks⟩ := List.pairwise_cons.mp hys
    rcases Std.lt_trichotomy j k with hlt | rfl | hgt
    · -- the first name is none of the others' names
      have hnone : ((k, y) :: ys).lookup j = none :=
        Members.lookup_eq_none (List.forall_mem_cons.mpr
          ⟨hlt, fun member hm => String.lt_trans hlt (hk member hm)⟩)
      have hne : (j == k) = false := beq_eq_false_iff_ne.mpr fun he => String.lt_irrefl _ (he ▸ hlt)
      rw [sameMembers, hnone, equalMembers, hne, Option.any_none, Bool.false_and, Bool.and_false,
        Bool.false_and, Bool.false_and]
    · -- under one name, what comes before all the rest can be left out of their look-ups
      have hvalue := same_eq_equals x y hcx.1 hcy.1
      have hmembers := sameMembers_eq_equalMembers xs ys hjs hks hcx.2 hcy.2
      rw [List.all_cons, all_isSome_lookup_cons_of_lt hk, sameMembers, sameMembers_cons_of_lt hj,
        Members.lookup_cons, Members.lookup_cons, if_pos rfl, if_pos rfl, equalMembers,
        beq_self_eq_true, ← hvalue, ← hmembers]
      simp only [Option.isSome_some, Option.any_some, Bool.true_and, Bool.and_left_comm]
    · -- and here the second name is none of the first ones
      have hnone : ((j, x) :: xs).lookup k = none :=
        Members.lookup_eq_none (List.forall_mem_cons.mpr
          ⟨hgt, fun member hm => String.lt_trans hgt (hj member hm)⟩)
      have hne : (j == k) = false := beq_eq_false_iff_ne.mpr fun he => String.lt_irrefl _ (he ▸ hgt)
      rw [List.all_cons, hnone, equalMembers, hne, Option.isSome_none, Bool.false_and,
        Bool.false_and, Bool.false_and, Bool.false_and]

end

end Query.Rules

end DocQuery
