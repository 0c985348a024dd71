import DocQuery.Options.Written
import DocQuery.Proofs.Grammar

/-! Settings are read back from each form in which they are written. A reading of an object is a
reading of each setting by itself, from the values that stand under its name. So neither the order
of the members nor the members with other names matter, and a second value for one setting is an
error. -/

namespace DocQuery

namespace Json.Literal

theorem under_append (name : String) (members others : List (Option String × Literal)) :
    under name (members ++ others) = under name members ++ under name others := by
  rw [under, List.filter_append, List.map_append]
  rfl

theorem under_perm (name : String) {members others : List (Option String × Literal)}
    (h : members.Perm others) : (under name members).Perm (under name others) :=
  (h.filter _).map _

theorem under_named (name : String) (value : Literal) :
    under name [(some name, value)] = [value] := by
  rw [under, List.filter_cons_of_pos (by simp)]
  rfl

theorem under_filter {name : String} {kept : Option String × Literal → Bool}
    (h : ∀ value, kept (some name, value) = true) (members : List (Option String × Literal)) :
    under name (members.filter kept) = under name members := by
  rw [under, List.filter_filter, under]
  congr 1
  apply List.filter_congr
  rintro ⟨key, value⟩ -
  by_cases hkey : key = some name
  · rw [hkey, h, Bool.and_true]
  · simp [hkey]

theorem under_of_ne {name : String} {key : Option String} (h : key ≠ some name) (value : Literal) :
    under name [(key, value)] = [] := by
  rw [under, List.filter_cons_of_neg (by simpa using h)]
  rfl

end Json.Literal

namespace Options

open Json (Literal Numeral Token)
open Json.Literal (under under_append under_filter under_named under_of_ne under_perm)

/-- To read values in two parts is to go on with what the first part has given. -/
theorem gather_append {α : Type} (read : Literal → Option α) (held : Option α)
    (values others : List Literal) :
    gather read held (values ++ others) =
      (gather read held values).bind fun held => gather read held others := by
  fun_induction gather read held values with
  | case1 held => rfl
  | case2 x value values => rfl
  | case3 value values ih =>
    rw [List.cons_append, gather, Option.bind_assoc]
    exact congrArg _ (funext ih)

/-- Two values for one setting are too many, whatever they are. -/
theorem gather_eq_none {α : Type} (read : Literal → Option α) {values : List Literal}
    (h : 2 ≤ values.length) : gather read none values = none := by
  cases values with
  | nil => exact absurd h (by decide)
  | cons first values =>
    cases values with
    | nil => exact absurd h (by simp)
    | cons second values =>
      -- the first may be refused itself, and the second is if it is not
      rw [gather]
      cases read first <;> rfl

theorem gather_toList {α : Type} {read : Literal → Option α} {write : α → Literal} {x? : Option α}
    (h : ∀ x ∈ x?, read (write x) = some x) :
    gather read none (x?.map write).toList = some x? := by
  cases x? with
  | none => rfl
  | some x =>
    change (read (write x)).bind _ = _
    rw [h x rfl]
    rfl

theorem depth?_depthLiteral {n : Nat} (h : n < UInt64.size) : depth? (depthLiteral n) = some n := by
  have hrange : 0 ≤ (n : Int) ∧ (n : Int).toNat < UInt64.size := by
    rw [Int.toNat_natCast]
    exact ⟨Int.natCast_nonneg n, h⟩
  rw [depthLiteral, depth?, Numeral.integer?_ofInt, Option.bind_some, if_pos hrange,
    Int.toNat_natCast]

theorem separator?_separatorLiteral (c : Char) : separator? (separatorLiteral c) = some c := by
  rw [separatorLiteral, separator?, String.toList_singleton]

namespace Draft

theorem ext {draft other : Draft} (hdepth : draft.maxDepth = other.maxDepth)
    (hseparator : draft.separator = other.separator) : draft = other := by
  cases draft
  cases other
  cases hdepth
  cases hseparator
  rfl

theorem putDepth_eq_some_iff {draft next : Draft} {value : Literal} :
    draft.putDepth value = some next ↔
      gather depth? draft.maxDepth [value] = some next.maxDepth ∧
        draft.separator = next.separator := by
  have hput : draft.putDepth value =
      (gather depth? draft.maxDepth [value]).map fun depth => ⟨depth, draft.separator⟩ := by
    cases h : draft.maxDepth with
    | some n =>
      rw [putDepth, h]
      rfl
    | none =>
      rw [putDepth, h, gather]
      cases depth? value <;> rfl
  rw [hput, Option.map_eq_some_iff]
  constructor
  · rintro ⟨depth, hdepth, rfl⟩
    exact ⟨hdepth, rfl⟩
  · rintro ⟨hdepth, hseparator⟩
    exact ⟨next.maxDepth, hdepth, ext rfl hseparator⟩

theorem putSeparator_eq_some_iff {draft next : Draft} {value : Literal} :
    draft.putSeparator value = some next ↔
      draft.maxDepth = next.maxDepth ∧
        gather separator? draft.separator [value] = some next.separator := by
  have hput : draft.putSeparator value =
      (gather separator? draft.separator [value]).map fun separator =>
        ⟨draft.maxDepth, separator⟩ := by
    cases h : draft.separator with
    | some c =>
      rw [putSeparator, h]
      rfl
    | none =>
      rw [putSeparator, h, gather]
      cases separator? value <;> rfl
  rw [hput, Option.map_eq_some_iff]
  constructor
  · rintro ⟨separator, hseparator, rfl⟩
    exact ⟨rfl, hseparator⟩
  · rintro ⟨hdepth, hseparator⟩
    exact ⟨next.separator, hseparator, ext hdepth rfl⟩

theorem putDepth_depthLiteral {n : Nat} (h : n < UInt64.size) :
    putDepth {} (depthLiteral n) = some ⟨some n, none⟩ := by
  change (depth? (depthLiteral n)).map _ = _
  rw [depth?_depthLiteral h]
  rfl

theorem putSeparator_separatorLiteral (n : Nat) (c : Char) :
    putSeparator ⟨some n, none⟩ (separatorLiteral c) = some ⟨some n, some c⟩ := by
  change (separator? (separatorLiteral c)).map _ = _
  rw [separator?_separatorLiteral]
  rfl

/-- A member is taken as a value of each setting whose name it has. -/
theorem put_eq_some_iff {draft next : Draft} {member : Option String × Literal} :
    draft.put member = some next ↔ member.1.isSome ∧
      gather depth? draft.maxDepth (under depthName [member]) = some next.maxDepth ∧
      gather separator? draft.separator (under separatorName [member]) = some next.separator := by
  obtain ⟨key, value⟩ := member
  cases key with
  | none => exact iff_of_false nofun fun h => nomatch h.1
  | some key =>
    have hnames : some depthName ≠ some separatorName := by decide
    by_cases hdepth : key = depthName
    · rw [hdepth, put, if_pos rfl, under_named, under_of_ne hnames, putDepth_eq_some_iff, gather,
        Option.some_inj]
      exact (and_iff_right rfl).symm
    · have hother : some key ≠ some depthName := hdepth ∘ Option.some.inj
      rw [put, if_neg hdepth, under_of_ne hother, gather, Option.some_inj]
      by_cases hseparator : key = separatorName
      · rw [hseparator, if_pos rfl, under_named, putSeparator_eq_some_iff]
        exact (and_iff_right rfl).symm
      · -- a member with another name leaves the draft as it is
        rw [if_neg hseparator, under_of_ne (hseparator ∘ Option.some.inj), gather, Option.some_inj,
          Option.some_inj]
        constructor
        · rintro rfl
          exact ⟨rfl, rfl, rfl⟩
        · exact fun h => ext h.2.1 h.2.2

/-- Members are taken as the values of each setting are, under its name. -/
theorem foldlM_put_eq_some_iff {draft final : Draft} {members : List (Option String × Literal)} :
    members.foldlM put draft = some final ↔ (∀ member ∈ members, member.1.isSome) ∧
      gather depth? draft.maxDepth (under depthName members) = some final.maxDepth ∧
      gather separator? draft.separator (under separatorName members) = some final.separator := by
  induction members generalizing draft with
  | nil =>
    change some draft = some final ↔
      _ ∧ some draft.maxDepth = some _ ∧ some draft.separator = some _
    rw [Option.some_inj, Option.some_inj, Option.some_inj]
    constructor
    · rintro rfl
      exact ⟨List.forall_mem_nil _, rfl, rfl⟩
    · exact fun h => ext h.2.1 h.2.2
  | cons member members ih =>
    have hunder (name : String) :
        under name (member :: members) = under name [member] ++ under name members :=
      under_append name [member] members
    rw [List.foldlM_cons, hunder, hunder, gather_append, gather_append, List.forall_mem_cons]
    simp only [Option.bind_eq_bind, Option.bind_eq_some_iff, put_eq_some_iff, ih]
    constructor
    · rintro ⟨next, ⟨hkey, hdepth, hseparator⟩, hkeys, hdepths, hseparators⟩
      exact ⟨⟨hkey, hkeys⟩, ⟨_, hdepth, hdepths⟩, _, hseparator, hseparators⟩
    · -- what each setting has after the first member is the draft in between
      rintro ⟨⟨hkey, hkeys⟩, ⟨depth, hdepth, hdepths⟩, separator, hseparator, hseparators⟩
      exact ⟨⟨depth, separator⟩, ⟨hkey, hdepth, hseparator⟩, hkeys, hdepths, hseparators⟩

/-- Members that repeat a setting are read as none. -/
theorem foldlM_put_eq_none {members : List (Option String × Literal)}
    (h : 2 ≤ (under depthName members).length ∨ 2 ≤ (under separatorName members).length) :
    members.foldlM put {} = none := by
  apply Option.eq_none_iff_forall_ne_some.mpr
  intro draft hdraft
  obtain ⟨-, hdepth, hseparator⟩ := foldlM_put_eq_some_iff.mp hdraft
  rcases h with hdepths | hseparators
  · rw [gather_eq_none depth? hdepths] at hdepth
    cases hdepth
  · rw [gather_eq_none separator? hseparators] at hseparator
    cases hseparator

theorem under_members (draft : Draft) :
    under depthName draft.members = (draft.maxDepth.map depthLiteral).toList ∧
      under separatorName draft.members = (draft.separator.map separatorLiteral).toList := by
  obtain ⟨depth, separator⟩ := draft
  cases depth <;> cases separator <;> exact ⟨rfl, rfl⟩

theorem writtenIn_members (draft : Draft) : draft.WrittenIn draft.members where
  keyed := by
    obtain ⟨depth, separator⟩ := draft
    cases depth <;> cases separator <;> simp [members]
  settings := by
    obtain ⟨depth, separator⟩ := draft
    cases depth <;> cases separator <;> exact .refl _

theorem perm_toList {α : Type} {xs : List α} {x? : Option α} (h : xs.Perm x?.toList) :
    xs = x?.toList := by
  cases x? with
  | none => exact h.eq_nil
  | some x => exact List.perm_singleton.mp h

/-- Under each name stands what the draft has for it. -/
theorem WrittenIn.under_eq {draft : Draft} {members : List (Option String × Literal)}
    (h : draft.WrittenIn members) :
    under depthName members = (draft.maxDepth.map depthLiteral).toList ∧
      under separatorName members = (draft.separator.map separatorLiteral).toList := by
  obtain ⟨hdepth, hseparator⟩ := draft.under_members
  have hall (name : String) (hname : name = depthName ∨ name = separatorName) :
      (under name members).Perm (under name draft.members) := by
    -- members with other names do not stand under this one
    have hperm := under_perm name h.settings
    rwa [under_filter] at hperm
    exact fun _ => decide_eq_true (hname.imp (congrArg some) (congrArg some))
  -- at most one value stands under each name, and has no other order
  constructor
  · apply perm_toList
    rw [← hdepth]
    exact hall depthName (Or.inl rfl)
  · apply perm_toList
    rw [← hseparator]
    exact hall separatorName (Or.inr rfl)

/-- The members in which a draft is written are read as the draft. -/
theorem WrittenIn.foldlM_put {draft : Draft} {members : List (Option String × Literal)}
    (h : draft.WrittenIn members) (hdepth : ∀ n ∈ draft.maxDepth, n < UInt64.size) :
    members.foldlM put {} = some draft := by
  obtain ⟨hdepths, hseparators⟩ := h.under_eq
  rw [foldlM_put_eq_some_iff, hdepths, hseparators]
  refine ⟨h.keyed, ?_, ?_⟩
  · exact gather_toList fun n hn => depth?_depthLiteral (hdepth n hn)
  · exact gather_toList fun c _ => separator?_separatorLiteral c

end Draft

theorem ofText_of_literal {text : String} {literal : Literal}
    (h : Literal.ofText? text = some literal) :
    ofText text = match ofLiteral? literal with
      | some options => .ok options
      | none => .error .malformed := by
  rw [ofText, h]
  rfl

theorem ofText_of_written {draft : Draft} {text : String} {members : List (Option String × Literal)}
    (hdepth : ∀ n ∈ draft.maxDepth, n < UInt64.size)
    (htext : Literal.ofText? text = some (.object members)) (hwritten : draft.WrittenIn members) :
    ofText text = .ok draft.complete := by
  rw [ofText_of_literal htext, ofLiteral?, hwritten.foldlM_put hdepth]
  rfl

theorem escaping_sound : escaping.Sound where
  letters _ _ := Text.Escaping.escaped?_of_lookup (by decide)
  coded := by
    intro c h
    have hlow : c.toNat < 0x20 := of_decide_eq_true h
    omega
  covers := by
    intro c hletter hcoded
    refine ⟨?_, ?_, Nat.not_lt.mp (of_decide_eq_false hcoded)⟩
    · rintro rfl
      cases hletter
    · rintro rfl
      cases hletter

theorem ofText?_quote (s : String) :
    Literal.ofText? (String.ofList (escaping.quote s)) = some (.string (some s)) := by
  rw [Literal.ofText?_eq_some_iff, String.toList_ofList]
  exact Token.spells_quote escaping_sound s

theorem ofText?_toString (n : Nat) : Literal.ofText? (toString n) = some (depthLiteral n) :=
  Literal.ofText?_eq_some_iff.mpr (Token.spells_numeral (Numeral.ofChars?_toString n))

theorem ofText?_toText (options : Options) :
    Literal.ofText? options.toText = some (.object options.written.members) := by
  have htext : options.toText = Json.objectText
      [(String.ofList (escaping.quote depthName), toString options.maxDepth),
        (String.ofList (escaping.quote separatorName),
          String.ofList (escaping.quote (String.singleton options.separator)))] := by
    apply String.toList_inj.mp
    simp only [toText, Json.objectText, String.toList_ofList, String.toList_append,
      String.toList_intercalate, List.map_cons, List.map_nil, List.intercalate_cons_cons,
      List.intercalate_singleton, String.singleton_eq_ofList, List.append_assoc]
    rfl
  rw [htext]
  apply Literal.ofText?_objectText
  refine .cons ⟨?_, ?_⟩ (.cons ⟨?_, ?_⟩ .nil)
  · exact ofText?_quote depthName
  · exact ofText?_toString options.maxDepth
  · exact ofText?_quote separatorName
  · exact ofText?_quote (String.singleton options.separator)

/-- What is read from the texts of settings. Those with any 64-bit depth and any separator are read
back from the text that is written of them, and from every text of an object that has the two
members among others, wherever they stand. What an object leaves out has its default, and so has
what an array leaves out at its end. A second member with one of the two names is an error, whatever
the members hold. The members may have any texts of keys and values, and those make the text of an
object. -/
structure TextForms : Prop where
  written : ∀ options : Options, options.maxDepth < UInt64.size →
    ofText options.toText = .ok options
  object : ∀ (draft : Draft) (members : List (Option String × Literal)) (text : String),
    (∀ n ∈ draft.maxDepth, n < UInt64.size) → draft.WrittenIn members →
      Literal.ofText? text = some (.object members) →
        ofText text = .ok ⟨draft.maxDepth.getD 128, draft.separator.getD '.'⟩
  both_items : ∀ (n : Nat) (c : Char) (text : String), n < UInt64.size →
    Literal.ofText? text = some (.array [depthLiteral n, separatorLiteral c]) →
      ofText text = .ok ⟨n, c⟩
  depth_item : ∀ (n : Nat) (text : String), n < UInt64.size →
    Literal.ofText? text = some (.array [depthLiteral n]) → ofText text = .ok ⟨n, '.'⟩
  no_item : ∀ text : String, Literal.ofText? text = some (.array []) →
    ofText text = .ok ⟨128, '.'⟩
  repeated : ∀ (members : List (Option String × Literal)) (text : String),
    2 ≤ (under depthName members).length ∨ 2 ≤ (under separatorName members).length →
      Literal.ofText? text = some (.object members) → ofText text = .error .malformed
  objectText : ∀ (texts : List (String × String)) (members : List (Option String × Literal)),
    List.Forall₂ (fun text member => Literal.ofText? text.1 = some (.string member.1) ∧
      Literal.ofText? text.2 = some member.2) texts members →
        Literal.ofText? (Json.objectText texts) = some (.object members)
  arrayText : ∀ (texts : List String) (items : List Literal),
    List.Forall₂ (fun text item => Literal.ofText? text = some item) texts items →
      Literal.ofText? (Json.arrayText texts) = some (.array items)

/-- Settings are read from all these forms. -/
theorem ofText_forms : TextForms := by
  refine ⟨?_, ?_, ?_, ?_, ?_, ?_, fun _ _ => Literal.ofText?_objectText,
    fun _ _ => Literal.ofText?_arrayText⟩
  · intro options hdepth
    have hwritten : ∀ n ∈ options.written.maxDepth, n < UInt64.size := by
      rintro n ⟨⟩
      exact hdepth
    exact ofText_of_written hwritten (ofText?_toText options) options.written.writtenIn_members
  · intro draft members text hdepth hwritten htext
    exact ofText_of_written hdepth htext hwritten
  · intro n c text hdepth htext
    rw [ofText_of_literal htext, ofLiteral?, Draft.putDepth_depthLiteral hdepth, Option.bind_some,
      Draft.putSeparator_separatorLiteral]
    rfl
  · intro n text hdepth htext
    rw [ofText_of_literal htext, ofLiteral?, Draft.putDepth_depthLiteral hdepth]
    rfl
  · intro text htext
    rw [ofText_of_literal htext]
    rfl
  · intro members text hrepeated htext
    rw [ofText_of_literal htext, ofLiteral?, Draft.foldlM_put_eq_none hrepeated]
    rfl

/-- The greatest depth, and a separator that has to be escaped; an escaped surrogate pair before the
depth, after a nested member with the name of a setting; an array without its tail; and two depths
around another member. -/
theorem ofText_forms_escaped_and_nested :
    ofText (toText ⟨18446744073709551615, '"'⟩) = .ok ⟨18446744073709551615, '"'⟩ ∧
    ofText (Json.objectText [("\"a\"", "[\x7b\"max_depth\":null\x7d]"),
      ("\"path_separator\"", "\"\\ud83d\\ude00\""),
      (" \"max_depth\"", "18446744073709551615 ")]) = .ok ⟨18446744073709551615, '😀'⟩ ∧
    ofText "[7]" = .ok ⟨7, '.'⟩ ∧
    ofText "\x7b\"max_depth\":1,\"a\":true,\"max_depth\":1\x7d" = .error .malformed := by
  have hforms := ofText_forms
  have hread : Literal.ofText? "[7]" = some (.array [depthLiteral 7]) := by rfl
  have htwice : Literal.ofText? "\x7b\"max_depth\":1,\"a\":true,\"max_depth\":1\x7d" = some
      (.object [(some depthName, depthLiteral 1), (some "a", .bool true),
        (some depthName, depthLiteral 1)]) := by rfl
  refine ⟨hforms.written _ (by decide), ?_, hforms.depth_item 7 _ (by decide) hread, ?_⟩
  · refine hforms.object ⟨some 18446744073709551615, some '😀'⟩
      [(some "a", .array [.object [(some "max_depth", .null)]]),
        (some separatorName, separatorLiteral '😀'),
        (some depthName, depthLiteral 18446744073709551615)] _ ?_ ?_ (hforms.objectText _ _ ?_)
    · rintro n ⟨⟩
      decide
    · exact ⟨by simp, .swap _ _ _⟩
    · exact .cons ⟨by rfl, by rfl⟩ (.cons ⟨by rfl, by rfl⟩ (.cons ⟨by rfl, by rfl⟩ .nil))
  · exact hforms.repeated _ _ (Or.inl (by decide)) htwice

end Options

end DocQuery
