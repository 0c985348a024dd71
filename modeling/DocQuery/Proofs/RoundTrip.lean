import DocQuery.Json.Value
import DocQuery.Proofs.Spelling
import DocQuery.Value.Canonical
import DocQuery.Value.Clean

/-! Showing a value and reading the text gives the value again, but for doubles that have no written
form, as long as the containers in it nest no deeper than a text may. -/

namespace DocQuery

namespace Value

open Json (Literal Numeral)

mutual

/-- What a value is written as is read as the value without what has no written form. -/
theorem value?_literal : (v : Value) → (room : Nat) → v.Canonical → v.height ≤ room →
    Literal.value? room v.literal = some v.clean
  | null, _, _, _ | bool _, _, _, _ | str _, _, _, _ => rfl
  | int n, _, _, _ => Numeral.value?_ofInt n
  | float (.finite negative rank), _, _, _ => Numeral.value?_ofRank negative rank
  | float (.infinite _), _, _, _ | float .nan, _, _, _ => rfl
  | arr items, 0, _, hheight | obj members, 0, _, hheight => absurd hheight (Nat.not_succ_le_zero _)
  | arr items, room + 1, hcanonical, hheight => by
    have hitems := itemValues?_literal items room hcanonical (Nat.le_of_succ_le_succ hheight)
    exact congrArg (Option.map arr) hitems
  | obj members, room + 1, hcanonical, hheight => by
    have hmembers := memberValues?_literal members room hcanonical.2
      (Nat.le_of_succ_le_succ hheight)
    -- the keys are still in order, so building the object again moves nothing
    have hsame : Members.ofList (cleanMembers members) = cleanMembers members :=
      Members.ofList_eq_self (ascending_cleanMembers hcanonical.1)
    have hread := congrArg (Option.map fun members => obj (Members.ofList members)) hmembers
    rw [Option.map_some, hsame] at hread
    exact hread

theorem itemValues?_literal : (items : List Value) → (room : Nat) → CanonicalItems items →
    heightItems items ≤ room →
    Literal.itemValues? room (itemLiterals items) = some (cleanItems items)
  | [], _, _, _ => rfl
  | item :: items, room, hcanonical, hheight => by
    obtain ⟨hitem, hitems⟩ := Nat.max_le.mp hheight
    rw [itemLiterals, Literal.itemValues?, value?_literal item room hcanonical.1 hitem,
      itemValues?_literal items room hcanonical.2 hitems]
    rfl

theorem memberValues?_literal : (members : List (String × Value)) → (room : Nat) →
    CanonicalMembers members → heightMembers members ≤ room →
    Literal.memberValues? room (memberLiterals members) = some (cleanMembers members)
  | [], _, _, _ => rfl
  | (key, value) :: members, room, hcanonical, hheight => by
    obtain ⟨hvalue, hmembers⟩ := Nat.max_le.mp hheight
    rw [memberLiterals, Literal.memberValues?, value?_literal value room hcanonical.1 hvalue,
      memberValues?_literal members room hcanonical.2 hmembers]
    rfl

end

mutual

/-- What nests deeper than there is room is not read. -/
theorem value?_eq_none : (v : Value) → (room : Nat) → room < v.height →
    Literal.value? room v.literal = none
  | arr _, 0, _ | obj _, 0, _ => rfl
  | arr items, room + 1, h =>
    congrArg (Option.map arr) (itemValues?_eq_none items room (Nat.lt_of_succ_lt_succ h))
  | obj members, room + 1, h =>
    congrArg (Option.map fun members => obj (Members.ofList members))
      (memberValues?_eq_none members room (Nat.lt_of_succ_lt_succ h))

theorem itemValues?_eq_none : (items : List Value) → (room : Nat) → room < heightItems items →
    Literal.itemValues? room (itemLiterals items) = none
  | item :: items, room, h => by
    have hdeep : room < item.height ∨ room < heightItems items := by
      rw [heightItems] at h
      omega
    rw [itemLiterals, Literal.itemValues?]
    -- an item that is read does not help the one that is not
    rcases hdeep with hitem | hitems
    · rw [value?_eq_none item room hitem]
      rfl
    · rw [itemValues?_eq_none items room hitems]
      cases Literal.value? room item.literal <;> rfl

theorem memberValues?_eq_none : (members : List (String × Value)) → (room : Nat) →
    room < heightMembers members →
    Literal.memberValues? room (memberLiterals members) = none
  | (key, value) :: members, room, h => by
    have hdeep : room < value.height ∨ room < heightMembers members := by
      rw [heightMembers] at h
      omega
    rw [memberLiterals, Literal.memberValues?]
    rcases hdeep with hvalue | hmembers
    · rw [value?_eq_none value room hvalue]
      rfl
    · rw [memberValues?_eq_none members room hmembers]
      cases Literal.value? room value.literal <;> rfl

end

/-- What reading makes: a value in order, that is all written down, and nests within the room. -/
structure Fits (room : Nat) (v : Value) : Prop where
  canonical : v.Canonical
  height_le : v.height ≤ room
  clean_eq : v.clean = v

theorem Fits.arr {room : Nat} {items : List Value} (h : ∀ item ∈ items, item.Fits room) :
    (Value.arr items).Fits (room + 1) := by
  have hall : CanonicalItems items ∧ heightItems items ≤ room ∧ cleanItems items = items := by
    induction items with
    | nil => exact ⟨trivial, Nat.zero_le room, rfl⟩
    | cons item items ih =>
      obtain ⟨hitem, hitems⟩ := List.forall_mem_cons.mp h
      obtain ⟨hcanonical, hheight, hclean⟩ := ih hitems
      refine ⟨⟨hitem.canonical, hcanonical⟩, Nat.max_le.mpr ⟨hitem.height_le, hheight⟩, ?_⟩
      rw [cleanItems, hitem.clean_eq, hclean]
  exact ⟨hall.1, Nat.succ_le_succ hall.2.1, congrArg Value.arr hall.2.2⟩

theorem Fits.obj {room : Nat} {members : List (String × Value)}
    (hascending : Members.Ascending members) (h : ∀ member ∈ members, member.2.Fits room) :
    (Value.obj members).Fits (room + 1) := by
  have hall (members : List (String × Value)) (h : ∀ member ∈ members, member.2.Fits room) :
      CanonicalMembers members ∧ heightMembers members ≤ room ∧ cleanMembers members = members := by
    induction members with
    | nil => exact ⟨trivial, Nat.zero_le room, rfl⟩
    | cons member members ih =>
      obtain ⟨hvalue, hmembers⟩ := List.forall_mem_cons.mp h
      obtain ⟨hcanonical, hheight, hclean⟩ := ih hmembers
      refine ⟨⟨hvalue.canonical, hcanonical⟩, Nat.max_le.mpr ⟨hvalue.height_le, hheight⟩, ?_⟩
      rw [cleanMembers, hvalue.clean_eq, hclean]
  obtain ⟨hcanonical, hheight, hclean⟩ := hall members h
  exact ⟨⟨hascending, hcanonical⟩, Nat.succ_le_succ hheight, congrArg Value.obj hclean⟩

theorem fits_ofInteger (n : Json.Integer) (room : Nat) : (ofInteger n).Fits room := by
  unfold ofInteger
  split
  · exact ⟨trivial, Nat.zero_le room, rfl⟩
  · have hlow : -9223372036854775808 ≤ n.toInt := n.inRange.1
    have hhigh : n.toInt < 18446744073709551616 := n.inRange.2
    have hfinite : (Double.ofInt n.toInt).isFinite = true :=
      Double.isFinite_ofInt (n := n.toInt) (by omega)
    exact ⟨trivial, Nat.zero_le room, if_pos hfinite⟩

theorem fits_of_numeral {n : Numeral} {v : Value} (h : n.value? = some v) (room : Nat) :
    v.Fits room := by
  obtain ⟨tree, htree, rfl⟩ := Option.map_eq_some_iff.mp h
  unfold Numeral.tree? at htree
  split at htree
  · rename_i i _
    cases htree
    exact fits_ofInteger i room
  · unfold Numeral.float? at htree
    dsimp only at htree
    split at htree
    · rename_i hfinite
      cases htree
      exact ⟨trivial, Nat.zero_le room, if_pos hfinite⟩
    · cases htree

mutual

theorem fits_of_value? : (literal : Literal) → (room : Nat) → (v : Value) →
    literal.value? room = some v → v.Fits room
  | .null, _, _, h | .bool _, _, _, h => by
    cases h
    exact ⟨trivial, Nat.zero_le _, rfl⟩
  | .number n, room, _, h => fits_of_numeral h room
  | .string content, room, _, h => by
    obtain ⟨s, _, rfl⟩ := Option.map_eq_some_iff.mp h
    exact ⟨trivial, Nat.zero_le _, rfl⟩
  | .array items, room + 1, _, h => by
    obtain ⟨values, hvalues, rfl⟩ := Option.map_eq_some_iff.mp h
    exact Fits.arr (fits_of_itemValues? items room values hvalues)
  | .object members, room + 1, _, h => by
    obtain ⟨entries, hentries, rfl⟩ := Option.map_eq_some_iff.mp h
    have hfits := fits_of_memberValues? members room entries hentries
    exact Fits.obj (Members.ascending_ofList entries) fun member hm =>
      hfits member (Members.mem_of_mem_ofList hm)

theorem fits_of_itemValues? : (items : List Literal) → (room : Nat) → (values : List Value) →
    Literal.itemValues? room items = some values → ∀ v ∈ values, v.Fits room
  | [], _, _, h => by
    cases h
    exact List.forall_mem_nil _
  | item :: items, room, _, h => by
    obtain ⟨v, values, hv, hvalues, rfl⟩ := Literal.itemValues?_cons_eq_some.mp h
    exact List.forall_mem_cons.mpr
      ⟨fits_of_value? item room v hv, fits_of_itemValues? items room values hvalues⟩

theorem fits_of_memberValues? : (members : List (Option String × Literal)) → (room : Nat) →
    (entries : List (String × Value)) → Literal.memberValues? room members = some entries →
    ∀ entry ∈ entries, entry.2.Fits room
  | [], _, _, h => by
    cases h
    exact List.forall_mem_nil _
  | (key, member) :: members, room, _, h => by
    obtain ⟨k, v, entries, -, hv, hentries, rfl⟩ := Literal.memberValues?_cons_eq_some.mp h
    exact List.forall_mem_cons.mpr
      ⟨fits_of_value? member room v hv, fits_of_memberValues? members room entries hentries⟩

end

theorem ofText_display_of_fits {v : Value} (h : v.Fits maxNesting) : ofText v.display = .ok v := by
  rw [ofText_of_literal (ofText?_display v), value?_literal v maxNesting h.canonical h.height_le,
    h.clean_eq]

theorem fits_of_ofText {text : String} {v : Value} (h : ofText text = .ok v) :
    v.Fits maxNesting := by
  obtain ⟨literal, -, hvalue⟩ := exists_literal_of_ofText h
  exact fits_of_value? literal maxNesting v hvalue

/-- A shown value is read as it was, with null for what has no written form, unless it nests too
deep to be read at all. So whatever has been read once is read again from its text. -/
theorem ofText_display :
    (∀ v : CanonicalValue, v.value.height ≤ 127 →
      ofText v.value.display = .ok v.value.clean) ∧
    (∀ v : Value, 128 ≤ v.height → ofText v.display = .error .malformed) ∧
    (∀ text v, ofText text = .ok v → ofText v.display = .ok v) := by
  refine ⟨?_, ?_, ?_⟩
  · intro ⟨v, hcanonical⟩ hheight
    rw [ofText_of_literal (ofText?_display v), value?_literal v maxNesting hcanonical hheight]
  · intro v hheight
    rw [ofText_of_literal (ofText?_display v), value?_eq_none v maxNesting hheight]
  · intro text v h
    exact ofText_display_of_fits (fits_of_ofText h)

/-- Minus zero keeps its sign, the largest double its last digit, and NaN comes back as null. Of 128
containers one is too many. -/
theorem ofText_display_mixed :
    ofText (obj [("\"", arr [float (.finite true ⟨0, by decide⟩), float .nan, int (-1),
        float (.finite false ⟨9218868437227405311, by decide⟩)])]).display =
      .ok (obj [("\"", arr [float (.finite true ⟨0, by decide⟩), null, int (-1),
        float (.finite false ⟨9218868437227405311, by decide⟩)])]) ∧
    ofText (Nat.repeat (fun v => arr [v]) 128 null).display = .error .malformed ∧
    ofText (arr [bool true, null]).display = .ok (arr [bool true, null]) := by
  have hcanonical : (obj [("\"", arr [float (.finite true ⟨0, by decide⟩), float .nan, int (-1),
      float (.finite false ⟨9218868437227405311, by decide⟩)])]).Canonical :=
    ⟨List.pairwise_singleton _ _, ⟨trivial, trivial, trivial, trivial, trivial⟩, trivial⟩
  have hheight (n : Nat) : (Nat.repeat (fun v => arr [v]) n null).height = n := by
    induction n with
    | zero => rfl
    | succ n ih => rw [Nat.repeat, height, heightItems, heightItems, ih, Nat.max_zero]
  have hread : ofText " [ true , null ] " = .ok (arr [bool true, null]) := by rfl
  refine ⟨?_, ?_, ?_⟩
  · exact ofText_display.1 ⟨_, hcanonical⟩ (Nat.le_of_ble_eq_true rfl)
  · exact ofText_display.2.1 _ (Nat.le_of_eq (hheight 128).symm)
  · exact ofText_display.2.2 _ _ hread

end Value

end DocQuery
