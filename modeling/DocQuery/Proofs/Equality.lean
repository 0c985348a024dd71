import DocQuery.Proofs.RoundTrip
import DocQuery.Proofs.Trees
import DocQuery.Value.Chain

/-! Equality holds between values that are the same but for the signs of zeros, and NaN is in
neither. So it is symmetric and transitive, never joins two kinds, and can be read off the texts of
finite values. -/

namespace DocQuery

namespace Double

theorem equals_self_iff {x : Double} : x.equals x = true ↔ x ≠ .nan := by
  rw [equals_iff]
  cases x <;> simp [units?]

theorem isFinite_unsignZero (x : Double) : x.unsignZero.isFinite = x.isFinite := by
  cases x <;> rfl

theorem unsignZero_eq_nan_iff {x : Double} : x.unsignZero = .nan ↔ x = .nan := by
  cases x <;> simp [unsignZero]

end Double

namespace Value

open Json (Literal Numeral)

mutual

/-- Only NaN differs from itself. -/
theorem equals_self_iff : (v : Value) → (v.equals v = true ↔ Double.nan ∉ v.doubles)
  | null | bool _ | int _ | str _ => by simp [equals, doubles]
  | float x => by
    rw [equals, doubles, Double.equals_self_iff, List.mem_singleton]
    exact not_congr eq_comm
  | arr items => by
    rw [equals, doubles]
    exact equalItems_self_iff items
  | obj members => by
    rw [equals, doubles]
    exact equalMembers_self_iff members

theorem equalItems_self_iff : (items : List Value) →
    (equalItems items items = true ↔ Double.nan ∉ itemDoubles items)
  | [] => iff_of_true rfl List.not_mem_nil
  | item :: items => by
    rw [equalItems, itemDoubles, Bool.and_eq_true, List.mem_append, not_or, equals_self_iff item,
      equalItems_self_iff items]

theorem equalMembers_self_iff : (members : List (String × Value)) →
    (equalMembers members members = true ↔ Double.nan ∉ memberDoubles members)
  | [] => iff_of_true rfl List.not_mem_nil
  | (key, value) :: members => by
    rw [equalMembers, memberDoubles, Bool.and_eq_true, Bool.and_eq_true, beq_self_eq_true,
      List.mem_append, not_or, equals_self_iff value, equalMembers_self_iff members]
    simp only [true_and]

end

mutual

theorem doubles_unsignZeros : (v : Value) →
    v.unsignZeros.doubles = v.doubles.map Double.unsignZero
  | null | bool _ | int _ | float _ | str _ => rfl
  | arr items => itemDoubles_unsignItems items
  | obj members => memberDoubles_unsignMembers members

theorem itemDoubles_unsignItems : (items : List Value) →
    itemDoubles (unsignItems items) = (itemDoubles items).map Double.unsignZero
  | [] => rfl
  | item :: items => by
    rw [unsignItems, itemDoubles, itemDoubles, doubles_unsignZeros item,
      itemDoubles_unsignItems items, List.map_append]

theorem memberDoubles_unsignMembers : (members : List (String × Value)) →
    memberDoubles (unsignMembers members) = (memberDoubles members).map Double.unsignZero
  | [] => rfl
  | (_, value) :: members => by
    rw [unsignMembers, memberDoubles, memberDoubles, doubles_unsignZeros value,
      memberDoubles_unsignMembers members, List.map_append]

end

theorem nan_mem_doubles_unsignZeros (v : Value) :
    Double.nan ∈ v.unsignZeros.doubles ↔ Double.nan ∈ v.doubles := by
  rw [doubles_unsignZeros, List.mem_map]
  constructor
  · rintro ⟨x, hx, hnan⟩
    rwa [← Double.unsignZero_eq_nan_iff.mp hnan]
  · intro hnan
    exact ⟨.nan, hnan, rfl⟩

theorem finite_doubles_unsignZeros {v : Value} (h : ∀ x ∈ v.doubles, x.isFinite = true) :
    ∀ x ∈ v.unsignZeros.doubles, x.isFinite = true := by
  rw [doubles_unsignZeros]
  intro x hx
  obtain ⟨y, hy, rfl⟩ := List.mem_map.mp hx
  rw [Double.isFinite_unsignZero]
  exact h y hy

/-- Equal values are the same but for the signs of zeros, and without NaN. -/
theorem equals_iff {v w : Value} :
    v.equals w = true ↔ v.unsignZeros = w.unsignZeros ∧ Double.nan ∉ v.doubles := by
  constructor
  · intro h
    have hsame := unsignZeros_eq_of_equals v w h
    refine ⟨hsame, (equals_self_iff v).mp ?_⟩
    calc
      v.equals v = v.unsignZeros.equals v.unsignZeros := (equals_unsignZeros v v).symm
      _ = v.unsignZeros.equals w.unsignZeros := congrArg _ hsame
      _ = v.equals w := equals_unsignZeros v w
      _ = true := h
  · rintro ⟨hsame, hnan⟩
    calc
      v.equals w = v.unsignZeros.equals w.unsignZeros := (equals_unsignZeros v w).symm
      _ = v.unsignZeros.equals v.unsignZeros := congrArg _ hsame.symm
      _ = v.equals v := equals_unsignZeros v v
      _ = true := (equals_self_iff v).mpr hnan

theorem equals_symm {v w : Value} (h : v.equals w = true) : w.equals v = true := by
  obtain ⟨hsame, hnan⟩ := equals_iff.mp h
  refine equals_iff.mpr ⟨hsame.symm, ?_⟩
  rwa [← nan_mem_doubles_unsignZeros, ← hsame, nan_mem_doubles_unsignZeros]

theorem equals_trans {u v w : Value} (huv : u.equals v = true) (hvw : v.equals w = true) :
    u.equals w = true := by
  obtain ⟨hfirst, hnan⟩ := equals_iff.mp huv
  obtain ⟨hsecond, -⟩ := equals_iff.mp hvw
  exact equals_iff.mpr ⟨hfirst.trans hsecond, hnan⟩

theorem kind_unsignZeros (v : Value) : v.unsignZeros.kind = v.kind := by
  cases v <;> rfl

theorem getElem?_unsignItems (items : List Value) (index : Nat) :
    (unsignItems items)[index]? = items[index]?.map unsignZeros := by
  induction items generalizing index with
  | nil => rfl
  | cons item items ih =>
    cases index with
    | zero => rfl
    | succ index => exact ih index

theorem inside?_unsignZeros (v : Value) (steps : List Step) :
    v.unsignZeros.inside? steps = (v.inside? steps).map unsignZeros := by
  induction steps generalizing v with
  | nil => cases v <;> rfl
  | cons step steps ih =>
    cases v with
    | arr items =>
      cases step with
      | item index =>
        simp only [unsignZeros, inside?, getElem?_unsignItems]
        cases items[index]? with
        | none => rfl
        | some item => exact ih item
      | member key => rfl
    | obj members =>
      cases step with
      | item index => rfl
      | member key =>
        simp only [unsignZeros, inside?, lookup_unsignMembers]
        cases members.lookup key with
        | none => rfl
        | some value => exact ih value
    | null | bool | int | float | str => cases step <;> rfl

/-- Wherever steps lead in equal values, they lead to values of one kind. -/
theorem kind_inside?_of_equals {v w : Value} (h : v.equals w = true) (steps : List Step) :
    (v.inside? steps).map kind = (w.inside? steps).map kind := by
  have hkinds (u : Value) :
      (u.unsignZeros.inside? steps).map kind = (u.inside? steps).map kind := by
    rw [inside?_unsignZeros, Option.map_map]
    exact congrArg (fun f => (u.inside? steps).map f) (funext kind_unsignZeros)
  rw [← hkinds v, ← hkinds w, unsignZeros_eq_of_equals v w h]

/-- A scalar is read back from its literal as far as it was written down. -/
theorem clean_eq_of_scalar_literal_eq {v w : Value} (hv : v.height = 0) (hw : w.height = 0)
    (h : v.literal = w.literal) : v.clean = w.clean := by
  have hread {u : Value} (hu : u.height = 0) : Literal.value? 0 u.literal = some u.clean := by
    apply value?_literal u 0 _ (Nat.le_of_eq hu)
    cases u with
    | arr | obj => cases hu
    | null | bool | int | float | str => trivial
  have hsame := hread hv
  rw [h, hread hw] at hsame
  exact (Option.some.inj hsame).symm

theorem literal_ne_of_height_eq_zero {v : Value} (h : v.height = 0) (items : List Literal)
    (members : List (Option String × Literal)) :
    v.literal ≠ .array items ∧ v.literal ≠ .object members := by
  cases v with
  | arr | obj => cases h
  | float x => cases x <;> exact ⟨nofun, nofun⟩
  | null | bool | int | str => exact ⟨nofun, nofun⟩

mutual

/-- A literal tells all about a value but which of its nulls were doubles. -/
theorem clean_eq_of_literal_eq : (v w : Value) → v.literal = w.literal → v.clean = w.clean
  | arr items, w, h => by
    cases w with
    | arr others =>
      have hitems := cleanItems_eq_of_literals_eq items others (Literal.array.inj h)
      rw [clean, clean, hitems]
    | obj => cases h
    | null | bool | int | float | str =>
      exact absurd h.symm (literal_ne_of_height_eq_zero rfl _ []).1
  | obj members, w, h => by
    cases w with
    | obj others =>
      have hmembers := cleanMembers_eq_of_literals_eq members others (Literal.object.inj h)
      rw [clean, clean, hmembers]
    | arr => cases h
    | null | bool | int | float | str =>
      exact absurd h.symm (literal_ne_of_height_eq_zero rfl [] _).2
  | null, w, h | bool _, w, h | int _, w, h | float _, w, h | str _, w, h => by
    cases w with
    | arr => exact absurd h (literal_ne_of_height_eq_zero rfl _ []).1
    | obj => exact absurd h (literal_ne_of_height_eq_zero rfl [] _).2
    | null | bool | int | float | str => exact clean_eq_of_scalar_literal_eq rfl rfl h

theorem cleanItems_eq_of_literals_eq : (items others : List Value) →
    itemLiterals items = itemLiterals others → cleanItems items = cleanItems others
  | [], [], _ => rfl
  | item :: items, other :: others, h => by
    obtain ⟨hitem, hitems⟩ := List.cons.inj h
    rw [cleanItems, cleanItems, clean_eq_of_literal_eq item other hitem,
      cleanItems_eq_of_literals_eq items others hitems]

theorem cleanMembers_eq_of_literals_eq : (members others : List (String × Value)) →
    memberLiterals members = memberLiterals others → cleanMembers members = cleanMembers others
  | [], [], _ => rfl
  | (key, value) :: members, (other, operand) :: others, h => by
    obtain ⟨hmember, hmembers⟩ := List.cons.inj h
    obtain ⟨hkey, hvalue⟩ := Prod.mk.inj hmember
    rw [cleanMembers, cleanMembers, Option.some.inj hkey, clean_eq_of_literal_eq value operand hvalue,
      cleanMembers_eq_of_literals_eq members others hmembers]

end

/-- Values have one text just if they are the same but for what is written as null. -/
theorem display_eq_iff {v w : Value} : v.display = w.display ↔ v.clean = w.clean := by
  constructor
  · intro h
    have hread := ofText?_display v
    rw [h, ofText?_display w] at hread
    exact clean_eq_of_literal_eq v w (Option.some.inj hread).symm
  · intro h
    rw [display, display, ← chars_clean v, ← chars_clean w, h]

theorem equals_of_clean_eq {v w : Value} (hv : ∀ x ∈ v.doubles, x.isFinite = true)
    (hw : ∀ x ∈ w.doubles, x.isFinite = true) (h : v.clean = w.clean) : v.equals w = true := by
  have hfirst := (clean_equals_iff v).mpr hv
  have hsecond := (clean_equals_iff w).mpr hw
  rw [h] at hfirst
  exact equals_trans (equals_symm hfirst) hsecond

/-- Equality is symmetric and transitive, and NaN alone, at whatever depth, makes a value differ
from itself. No equal values hold different kinds in one place. Values whose doubles are all finite
are equal just if they have one text once zero has taken the place of minus zero. -/
theorem equals_partial_equivalence :
    (∀ v w : Value, v.equals w = true → w.equals v = true) ∧
    (∀ u v w : Value, u.equals v = true → v.equals w = true → u.equals w = true) ∧
    (∀ v : Value, v.equals v = true ↔ Double.nan ∉ v.doubles) ∧
    (∀ (v w : Value) (steps : List Step),
      (v.inside? steps).map kind ≠ (w.inside? steps).map kind → v.equals w = false) ∧
    (∀ v w : Value, (∀ x ∈ v.doubles, x.isFinite = true) → (∀ x ∈ w.doubles, x.isFinite = true) →
      (v.equals w = true ↔ v.unsignZeros.display = w.unsignZeros.display)) := by
  refine ⟨fun v w => equals_symm, fun u v w => equals_trans, equals_self_iff, ?_, ?_⟩
  · intro v w steps hkinds
    exact Bool.eq_false_iff.mpr fun h => hkinds (kind_inside?_of_equals h steps)
  · intro v w hv hw
    constructor
    · intro h
      rw [unsignZeros_eq_of_equals v w h]
    · intro h
      have hclean := display_eq_iff.mp h
      rw [← equals_unsignZeros]
      exact equals_of_clean_eq (finite_doubles_unsignZeros hv) (finite_doubles_unsignZeros hw) hclean

/-- The zeros are equal at any depth, and shown alike without their signs. No integer equals a double,
and what holds a NaN does not equal itself. -/
theorem equals_partial_equivalence_zeros_and_nan :
    ((arr [float (.finite true ⟨0, by decide⟩)]).equals
        (arr [float (.finite false ⟨0, by decide⟩)]) = true ∧
      (arr [float (.finite false ⟨0, by decide⟩)]).equals
        (arr [float (.finite true ⟨0, by decide⟩)]) = true ∧
      (arr [float (.finite true ⟨0, by decide⟩)]).equals
        (arr [float (.finite true ⟨0, by decide⟩)]) = true) ∧
    ((arr [float .nan]).equals (arr [float .nan]) = false) ∧
    (((obj [("a", int 0)]).inside? [.member "a"]).map kind ≠
        ((obj [("a", float (.finite false ⟨0, by decide⟩))]).inside? [.member "a"]).map kind ∧
      (obj [("a", int 0)]).equals (obj [("a", float (.finite false ⟨0, by decide⟩))]) = false) ∧
    ((∀ x ∈ (arr [float (.finite true ⟨0, by decide⟩)]).doubles, x.isFinite = true) ∧
      (∀ x ∈ (arr [float (.finite false ⟨0, by decide⟩)]).doubles, x.isFinite = true) ∧
      (arr [float (.finite true ⟨0, by decide⟩)]).unsignZeros.display =
        (arr [float (.finite false ⟨0, by decide⟩)]).unsignZeros.display) := by
  obtain ⟨hsymm, htrans, hself, hkinds, hdisplay⟩ := equals_partial_equivalence
  have hzeros : (arr [float (.finite true ⟨0, by decide⟩)]).equals
      (arr [float (.finite false ⟨0, by decide⟩)]) = true := by decide
  have hback := hsymm _ _ hzeros
  have hne : ((obj [("a", int 0)]).inside? [.member "a"]).map kind ≠
      ((obj [("a", float (.finite false ⟨0, by decide⟩))]).inside? [.member "a"]).map kind := by
    decide
  have hminus : ∀ x ∈ (arr [float (.finite true ⟨0, by decide⟩)]).doubles, x.isFinite = true := by
    decide
  have hplus : ∀ x ∈ (arr [float (.finite false ⟨0, by decide⟩)]).doubles, x.isFinite = true := by
    decide
  have hnan : Double.nan ∈ (arr [float .nan]).doubles := List.mem_singleton.mpr rfl
  exact ⟨⟨hzeros, hback, htrans _ _ _ hzeros hback⟩,
    Bool.eq_false_iff.mpr fun h => (hself _).mp h hnan, ⟨hne, hkinds _ _ _ hne⟩,
    ⟨hminus, hplus, (hdisplay _ _ hminus hplus).mp hzeros⟩⟩

end Value

end DocQuery
