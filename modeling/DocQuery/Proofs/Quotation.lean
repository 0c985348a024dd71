import DocQuery.Proofs.RoundTrip
import DocQuery.Text.Enclosed
import DocQuery.Value.Strings

/-! The text of a value has no control character in it, and its quotation marks can be told apart
without reading the rest: those that are not escaped come in pairs, around the strings of the value
in the order in which a walk meets them. -/

namespace DocQuery

namespace Text

/-- A character that is neither a quotation mark nor a backslash, nor a control character. -/
def Plain (c : Char) : Prop := c ≠ '"' ∧ c ≠ '\\' ∧ isControl c = false

instance (c : Char) : Decidable (Plain c) := inferInstanceAs (Decidable (_ ∧ _ ∧ _))

theorem backslashes_cons_of_ne {c : Char} (h : c ≠ '\\') (read : List Char) :
    backslashes (c :: read) = 0 := by
  rw [backslashes, List.takeWhile_cons_of_neg (by simpa using h)]
  rfl

theorem backslashes_cons_backslash (read : List Char) :
    backslashes ('\\' :: read) = backslashes read + 1 := rfl

theorem backslashes_of_plain {read : List Char} (h : ∀ c ∈ read, Plain c) :
    backslashes read = 0 := by
  cases read with
  | nil => rfl
  | cons c read => exact backslashes_cons_of_ne (h c List.mem_cons_self).2.1 read

theorem cut_cons_of_ne {c : Char} (h : c ≠ '"') (read rest : List Char) :
    cut read (c :: rest) = cut (c :: read) rest := by
  rw [cut, if_neg fun hquote => h hquote.1]

theorem cut_append_of_not_mem {cs : List Char} (h : '"' ∉ cs) (read rest : List Char) :
    cut read (cs ++ rest) = cut (cs.reverse ++ read) rest := by
  induction cs generalizing read with
  | nil => rfl
  | cons c cs ih =>
    obtain ⟨hc, hcs⟩ := not_or.mp (mt List.mem_cons.mpr h)
    rw [List.cons_append, cut_cons_of_ne (Ne.symm hc), ih hcs, List.reverse_cons,
      List.append_assoc]
    rfl

/-- After a backslash that is not escaped itself, no character delimits. -/
theorem cut_escape {read : List Char} (heven : backslashes read % 2 = 0) (letter : Char)
    (rest : List Char) :
    cut read ('\\' :: letter :: rest) = cut (letter :: '\\' :: read) rest := by
  have hodd : ¬ (letter = '"' ∧ backslashes ('\\' :: read) % 2 = 0) := by
    rw [backslashes_cons_backslash]
    omega
  rw [cut_cons_of_ne (by decide), cut, if_neg hodd]

/-- A quotation mark that is not escaped ends a piece. -/
theorem cut_mark {read : List Char} (heven : backslashes read % 2 = 0) (rest : List Char) :
    cut read ('"' :: rest) = read.reverse :: cut [] rest := by
  rw [cut, if_pos ⟨rfl, heven⟩]

theorem plain_digitChar {n : Nat} (h : n < 16) : Plain n.digitChar := by
  have hall : ∀ n < 16, Plain n.digitChar := by decide
  exact hall n h

theorem plain_of_mem_hex4 {n : Nat} {c : Char} (h : c ∈ hex4 n) : Plain c := by
  simp only [hex4, List.map_cons, List.map_nil, List.mem_cons, List.not_mem_nil, or_false] at h
  rcases h with rfl | rfl | rfl | rfl <;> exact plain_digitChar (Nat.mod_lt _ (by decide))

namespace Escaping

variable {escaping : Escaping}

/-- A written character does not end a piece, and leaves no backslash that would escape what follows. -/
theorem cut_write (hsound : escaping.Sound) (c : Char) {read : List Char}
    (heven : backslashes read % 2 = 0) (rest : List Char) :
    cut read (escaping.write c ++ rest) = cut ((escaping.write c).reverse ++ read) rest ∧
      backslashes ((escaping.write c).reverse ++ read) % 2 = 0 := by
  unfold write
  cases hletter : escaping.letters.lookup c with
  | some letter =>
    refine ⟨cut_escape heven letter rest, ?_⟩
    change backslashes (letter :: '\\' :: read) % 2 = 0
    by_cases hbackslash : letter = '\\'
    · -- an escaped backslash makes the run longer by two
      rw [hbackslash, backslashes_cons_backslash, backslashes_cons_backslash]
      omega
    · rw [backslashes_cons_of_ne hbackslash]
  | none =>
    cases hcoded : escaping.coded c with
    | true =>
      have hmark : '"' ∉ '\\' :: 'u' :: hex4 c.toNat := by
        simp only [List.mem_cons, not_or]
        exact ⟨by decide, by decide, fun h => (plain_of_mem_hex4 h).1 rfl⟩
      refine ⟨cut_append_of_not_mem hmark read rest, ?_⟩
      -- the last digit ends the run of backslashes before it
      have hlast : (c.toNat % 16).digitChar ≠ '\\' :=
        (plain_digitChar (Nat.mod_lt _ (by decide))).2.1
      have hzero := backslashes_cons_of_ne hlast
        ((c.toNat / 16 % 16).digitChar :: (c.toNat / 256 % 16).digitChar ::
          (c.toNat / 4096 % 16).digitChar :: 'u' :: '\\' :: read)
      exact congrArg (· % 2) hzero
    | false =>
      obtain ⟨hquote, hbackslash, -⟩ := hsound.covers c hletter hcoded
      refine ⟨cut_cons_of_ne hquote read rest, ?_⟩
      exact congrArg (· % 2) (backslashes_cons_of_ne hbackslash read)

theorem cut_flatMap_write (hsound : escaping.Sound) (cs : List Char) {read : List Char}
    (heven : backslashes read % 2 = 0) (rest : List Char) :
    cut read (cs.flatMap escaping.write ++ rest) =
        cut ((cs.flatMap escaping.write).reverse ++ read) rest ∧
      backslashes ((cs.flatMap escaping.write).reverse ++ read) % 2 = 0 := by
  induction cs generalizing read with
  | nil => exact ⟨rfl, heven⟩
  | cons c cs ih =>
    obtain ⟨hcut, hwritten⟩ := cut_write hsound c heven (cs.flatMap escaping.write ++ rest)
    obtain ⟨hcuts, hall⟩ := ih hwritten
    rw [List.flatMap_cons, List.append_assoc, List.reverse_append, List.append_assoc]
    exact ⟨hcut.trans hcuts, hall⟩

/-- The marks around a quoted string delimit, and no mark within it does. -/
theorem cut_quote (hsound : escaping.Sound) (s : String) {read : List Char}
    (heven : backslashes read % 2 = 0) (rest : List Char) :
    cut read (escaping.quote s ++ rest) =
      read.reverse :: s.toList.flatMap escaping.write :: cut [] rest := by
  have hquote : escaping.quote s ++ rest =
      '"' :: (s.toList.flatMap escaping.write ++ '"' :: rest) := by
    rw [quote, List.cons_append, List.cons_append, List.append_assoc]
    rfl
  have hempty : backslashes [] % 2 = 0 := rfl
  obtain ⟨hcontent, hwritten⟩ := cut_flatMap_write hsound s.toList hempty ('"' :: rest)
  rw [hquote, cut_mark heven, hcontent, cut_mark hwritten, List.append_nil, List.reverse_reverse]

end Escaping

/-- The text has no control character. Read from outside quotation marks it ends outside as well, and
encloses these pieces on the way. -/
structure Encloses (chars : List Char) (inners : List (List Char)) : Prop where
  clear : ∀ c ∈ chars, isControl c = false
  pieces : ∀ read, (∀ c ∈ read, Plain c) → ∃ after, (∀ c ∈ after, Plain c) ∧ ∀ rest,
    enclosed? (cut read (chars ++ rest)) = (enclosed? (cut after rest)).map (inners ++ ·)

theorem Encloses.of_plain {chars : List Char} (h : ∀ c ∈ chars, Plain c) : Encloses chars [] where
  clear c hc := (h c hc).2.2
  pieces read hread := by
    have hmark : '"' ∉ chars := fun hc => (h _ hc).1 rfl
    refine ⟨chars.reverse ++ read, ?_, fun rest => ?_⟩
    · intro c hc
      exact (List.mem_append.mp hc).elim (fun hc => h c (List.mem_reverse.mp hc)) (hread c)
    · rw [cut_append_of_not_mem hmark]
      exact Option.map_id'.symm

theorem Encloses.of_all {chars : List Char} (h : chars.all (fun c => decide (Plain c)) = true) :
    Encloses chars [] :=
  Encloses.of_plain fun c hc => of_decide_eq_true (List.all_eq_true.mp h c hc)

theorem Encloses.append {xs ys : List Char} {inners others : List (List Char)}
    (hx : Encloses xs inners) (hy : Encloses ys others) :
    Encloses (xs ++ ys) (inners ++ others) where
  clear c hc := (List.mem_append.mp hc).elim (hx.clear c) (hy.clear c)
  pieces read hread := by
    obtain ⟨middle, hmiddle, hfirst⟩ := hx.pieces read hread
    obtain ⟨after, hafter, hsecond⟩ := hy.pieces middle hmiddle
    refine ⟨after, hafter, fun rest => ?_⟩
    rw [List.append_assoc, hfirst, hsecond, Option.map_map]
    simp only [Function.comp_def, List.append_assoc]

theorem Encloses.cons {c : Char} (h : Plain c) {chars : List Char} {inners : List (List Char)}
    (hchars : Encloses chars inners) : Encloses (c :: chars) inners :=
  (Encloses.of_plain (List.forall_mem_singleton.mpr h)).append hchars

theorem Encloses.concat {chars : List Char} {inners : List (List Char)}
    (hchars : Encloses chars inners) {c : Char} (h : Plain c) : Encloses (chars ++ [c]) inners := by
  have hall := hchars.append (Encloses.of_plain (List.forall_mem_singleton.mpr h))
  rwa [List.append_nil] at hall

theorem Encloses.enclosed?_cut {chars : List Char} {inners : List (List Char)}
    (h : Encloses chars inners) : enclosed? (cut [] chars) = some inners := by
  obtain ⟨after, -, hcut⟩ := h.pieces [] (List.forall_mem_nil _)
  have hend := hcut []
  rw [List.append_nil] at hend
  rw [hend]
  exact congrArg some (List.append_nil inners)

end Text

namespace Value

open Text (Encloses Plain)

/-- What stands between the quotation marks of a written string. -/
def content (s : String) : List Char := s.toList.flatMap escaping.write

theorem isControl_of_mem_write {c d : Char} (h : d ∈ escaping.write c) :
    Text.isControl d = false := by
  unfold Text.Escaping.write at h
  cases hletter : escaping.letters.lookup c with
  | some letter =>
    have hall : ∀ pair ∈ escaping.letters, Text.isControl pair.2 = false := by decide
    obtain ⟨before, after, hletters, -⟩ := List.lookup_eq_some_iff.mp hletter
    rw [hletter] at h
    rcases List.mem_cons.mp h with rfl | hd
    · rfl
    · rw [List.mem_singleton.mp hd]
      exact hall (c, letter) (hletters ▸ List.mem_append_right _ List.mem_cons_self)
  | none =>
    rw [hletter] at h
    cases hcoded : escaping.coded c with
    | true =>
      rw [hcoded] at h
      rcases List.mem_cons.mp h with rfl | hd
      · rfl
      · rcases List.mem_cons.mp hd with rfl | hd
        · rfl
        · exact (Text.plain_of_mem_hex4 hd).2.2
    | false =>
      rw [hcoded] at h
      rw [List.mem_singleton.mp h]
      exact hcoded

theorem encloses_quote (s : String) : Encloses (escaping.quote s) [content s] where
  clear c hc := by
    rw [Text.Escaping.quote, List.cons_append, List.mem_cons, List.mem_append] at hc
    rcases hc with rfl | hc | hc
    · rfl
    · obtain ⟨d, -, hd⟩ := List.mem_flatMap.mp hc
      exact isControl_of_mem_write hd
    · rw [List.mem_singleton.mp hc]
      rfl
  pieces read hread := by
    have heven : Text.backslashes read % 2 = 0 := congrArg (· % 2) (Text.backslashes_of_plain hread)
    refine ⟨[], List.forall_mem_nil _, fun rest => ?_⟩
    rw [Text.Escaping.cut_quote escaping_sound s heven]
    rfl

theorem plain_of_numeric {c : Char} (h : Json.Numeral.Numeric c) : Plain c := by
  have hcode : 0x2b ≤ c.toNat ∧ c.toNat ≤ 0x65 ∧ c.toNat ≠ 0x5c := by
    rcases h with hdigit | hmark
    · simp only [Char.isDigit, Bool.and_eq_true, decide_eq_true_eq, UInt32.le_iff_toNat_le] at hdigit
      have hlow : 0x30 ≤ c.toNat := hdigit.1
      have hhigh : c.toNat ≤ 0x39 := hdigit.2
      omega
    · have hall : ['-', '+', '.', 'e', 'E'].all (fun d =>
          decide (0x2b ≤ d.toNat ∧ d.toNat ≤ 0x65 ∧ d.toNat ≠ 0x5c)) = true := rfl
      exact of_decide_eq_true (List.all_eq_true.mp hall c hmark)
  refine ⟨?_, ?_, ?_⟩
  · rintro rfl
    exact absurd hcode.1 (by decide)
  · rintro rfl
    exact hcode.2.2 rfl
  · simp only [Text.isControl, Bool.or_eq_false_iff, Bool.and_eq_false_iff, decide_eq_false_iff_not]
    omega

theorem encloses_null : Encloses "null".toList [] := Encloses.of_all rfl

theorem memberStrings_eq_map (members : List (String × Value)) :
    memberStrings members = members.map fun member => (member.1, member.2.strings) := by
  induction members with
  | nil => rfl
  | cons member members ih => rw [memberStrings, ih, List.map_cons]

theorem ofList_memberStrings {members : List (String × Value)} (h : Members.Ascending members) :
    Members.ofList (memberStrings members) = memberStrings members := by
  apply Members.ofList_eq_self
  rw [memberStrings_eq_map]
  exact List.pairwise_map.mpr h

mutual

/-- The text of a value encloses its strings and keys as they are written. -/
theorem encloses_chars : (v : Value) → v.Canonical →
    Encloses v.chars (v.strings.map content)
  | null, _ => encloses_null
  | bool true, _ | bool false, _ => Encloses.of_all rfl
  | int n, _ => Encloses.of_plain fun c hc =>
      plain_of_numeric (Json.Numeral.numeric_of_ofChars? (Json.Numeral.ofChars?_toString n.toInt) hc)
  | float (.finite negative rank), _ => Encloses.of_plain fun c hc =>
      plain_of_numeric
        (Json.Numeral.numeric_of_ofChars? (Json.Numeral.ofChars?_floatChars negative rank) hc)
  | float (.infinite _), _ | float .nan, _ => encloses_null
  | str s, _ => encloses_quote s
  | arr items, hcanonical =>
    ((encloses_itemsChars items hcanonical).concat (by decide)).cons (by decide)
  | obj members, hcanonical => by
    -- the walk takes the members as they are written, their keys being in order
    have hsame := ofList_memberStrings hcanonical.1
    rw [strings, hsame]
    exact ((encloses_membersChars members hcanonical.2).concat (by decide)).cons (by decide)

theorem encloses_itemsChars : (items : List Value) → CanonicalItems items →
    Encloses (itemsChars items) ((itemStrings items).map content)
  | [], _ => Encloses.of_plain (List.forall_mem_nil _)
  | [item], hcanonical => by
    rw [itemStrings, itemStrings, List.append_nil]
    exact encloses_chars item hcanonical.1
  | item :: next :: items, hcanonical => by
    have hitem := encloses_chars item hcanonical.1
    have hitems := encloses_itemsChars (next :: items) hcanonical.2
    rw [itemStrings, List.map_append]
    exact hitem.append (hitems.cons (by decide))

theorem encloses_membersChars : (members : List (String × Value)) → CanonicalMembers members →
    Encloses (membersChars members)
      (((memberStrings members).flatMap fun member => member.1 :: member.2).map content)
  | [], _ => Encloses.of_plain (List.forall_mem_nil _)
  | [(key, value)], hcanonical => by
    have hvalue := encloses_chars value hcanonical.1
    have hmember := (encloses_quote key).append (hvalue.cons (c := ':') (by decide))
    rw [memberStrings, memberStrings, List.flatMap_singleton]
    exact hmember
  | (key, value) :: next :: members, hcanonical => by
    have hvalue := encloses_chars value hcanonical.1
    have hmember := (encloses_quote key).append (hvalue.cons (c := ':') (by decide))
    have hmembers := encloses_membersChars (next :: members) hcanonical.2
    rw [memberStrings, List.flatMap_cons, List.map_append]
    exact hmember.append (hmembers.cons (by decide))

end

/-- A string is read back from what stands between its quotation marks. -/
theorem ofText_content (s : String) :
    ofText (String.ofList ('"' :: content s ++ ['"'])) = .ok (str s) := by
  have hdisplay : String.ofList ('"' :: content s ++ ['"']) = (str s).display := rfl
  rw [hdisplay]
  exact ofText_display_of_fits ⟨trivial, Nat.zero_le _, rfl⟩

/-- The text of a value has no control character. If it is cut at every quotation mark that no odd run
of backslashes escapes, the marks come in pairs, and what the pairs enclose spells the keys and
strings of the value, from the first to the last that a walk meets. -/
theorem display_safe_to_log (v : CanonicalValue) :
    (∀ c ∈ v.value.display.toList, Text.isControl c = false) ∧
    ∃ inners, Text.enclosed? (Text.cut [] v.value.display.toList) = some inners ∧
      inners.map (fun inner => ofText (String.ofList ('"' :: inner ++ ['"']))) =
        v.value.strings.map fun s => .ok (str s) := by
  obtain ⟨v, hcanonical⟩ := v
  have hencloses := encloses_chars v hcanonical
  rw [display, String.toList_ofList]
  refine ⟨hencloses.clear, v.strings.map content, hencloses.enclosed?_cut, ?_⟩
  rw [List.map_map]
  apply List.map_congr_left
  intro s _
  rw [Function.comp_apply, ofText_content]

/-- A key of a quotation mark and a backslash, and a string with a control character. -/
theorem display_safe_to_log_escaped :
    (∀ c ∈ (obj [("\"\\", arr [str "\x7f", str "\\"])]).display.toList, Text.isControl c = false) ∧
    ∃ inners,
      Text.enclosed? (Text.cut [] (obj [("\"\\", arr [str "\x7f", str "\\"])]).display.toList) =
        some inners ∧
      inners.map (fun inner => ofText (String.ofList ('"' :: inner ++ ['"']))) =
        [.ok (str "\"\\"), .ok (str "\x7f"), .ok (str "\\")] := by
  have hcanonical : (obj [("\"\\", arr [str "\x7f", str "\\"])]).Canonical :=
    ⟨List.pairwise_singleton _ _, ⟨trivial, trivial, trivial⟩, trivial⟩
  have hstrings : (obj [("\"\\", arr [str "\x7f", str "\\"])]).strings =
      ["\"\\", "\x7f", "\\"] := rfl
  obtain ⟨hclear, inners, hinners, hread⟩ := display_safe_to_log ⟨_, hcanonical⟩
  rw [hstrings] at hread
  exact ⟨hclear, inners, hinners, hread⟩

end Value

end DocQuery
