import DocQuery.Json.Spelling
import DocQuery.Proofs.Tokens

/-! A literal is built again from its tokens, and the text of a value is read as the literal that
the value is written as. -/

namespace DocQuery

namespace Json.Literal

theorem run_cons {state next : State} {token : Token} (h : step state token = some next)
    (rest : List Token) : run state (token :: rest) = run next rest := by
  rw [run, h]
  rfl

/-- No value begins with the end of an array, so the first item is read like any other. -/
theorem run_item (frames : List Frame) (literal : Literal) (rest : List Token) :
    run (.item frames) (literal.tokens ++ rest) =
      run (.value (.array [] :: frames)) (literal.tokens ++ rest) := by
  cases literal <;> rfl

/-- The first member of an object is read like any other. -/
theorem run_member (frames : List Frame) (member : Option String × Literal)
    (members : List (Option String × Literal)) (rest : List Token) :
    run (.member frames) (memberTokens (member :: members) ++ rest) =
      run (.key frames []) (memberTokens (member :: members) ++ rest) := by
  obtain ⟨key, value⟩ := member
  cases members <;> rfl

/-- A key with its colon leads to the value. -/
theorem run_key (frames : List Frame) (read : List (Option String × Literal)) (key : Option String)
    (rest : List Token) :
    run (.key frames read) (.string key :: .colon :: rest) =
      run (.value (.object read key :: frames)) rest := rfl

mutual

theorem run_tokens : (literal : Literal) → (frames : List Frame) → (rest : List Token) →
    run (.value frames) (literal.tokens ++ rest) = run (.after frames literal) rest
  | null, _, _ | bool _, _, _ | number _, _, _ | string _, _, _ => by
    rw [tokens]
    exact run_cons rfl _
  | array [], frames, rest => by
    rw [tokens]
    rfl
  | array (item :: items), frames, rest => by
    -- after the bracket an end could come too, but an item does
    have hbegin : step (.value frames) .beginArray = some (.item frames) := rfl
    have hitem : run (.item frames) (itemTokens (item :: items) ++ .endArray :: rest) =
        run (.value (.array [] :: frames)) (itemTokens (item :: items) ++ .endArray :: rest) := by
      cases items with
      | nil => exact run_item frames item _
      | cons next items =>
        rw [itemTokens, List.append_assoc]
        · exact run_item frames item _
        · exact List.cons_ne_nil next items
    rw [tokens, List.cons_append, List.cons_append, run_cons hbegin, List.append_assoc,
      List.singleton_append, hitem]
    exact run_itemTokens (item :: items) frames [] rest (List.cons_ne_nil _ _)
  | object [], frames, rest => by
    rw [tokens]
    rfl
  | object (member :: members), frames, rest => by
    have hbegin : step (.value frames) .beginObject = some (.member frames) := rfl
    rw [tokens, List.cons_append, List.cons_append, run_cons hbegin, List.append_assoc,
      List.singleton_append, run_member]
    exact run_memberTokens (member :: members) frames [] rest (List.cons_ne_nil _ _)

theorem run_itemTokens : (items : List Literal) → (frames : List Frame) →
    (read : List Literal) → (rest : List Token) → items ≠ [] →
    run (.value (.array read :: frames)) (itemTokens items ++ .endArray :: rest) =
      run (.after frames (.array (read.reverse ++ items))) rest
  | [], _, _, _, h => absurd rfl h
  | [item], frames, read, rest, _ => by
    rw [itemTokens, run_tokens item, run_cons rfl, List.reverse_cons]
  | item :: next :: items, frames, read, rest, _ => by
    rw [itemTokens, List.append_assoc, run_tokens item, List.cons_append, run_cons rfl,
      run_itemTokens (next :: items) frames (item :: read) rest (List.cons_ne_nil _ _),
      List.reverse_cons, List.append_assoc]
    · rfl
    · exact List.cons_ne_nil next items

theorem run_memberTokens : (members : List (Option String × Literal)) → (frames : List Frame) →
    (read : List (Option String × Literal)) → (rest : List Token) → members ≠ [] →
    run (.key frames read) (memberTokens members ++ .endObject :: rest) =
      run (.after frames (.object (read.reverse ++ members))) rest
  | [], _, _, _, h => absurd rfl h
  | [(key, value)], frames, read, rest, _ => by
    rw [memberTokens, List.cons_append, List.cons_append, run_key, run_tokens value, run_cons rfl,
      List.reverse_cons]
  | (key, value) :: next :: members, frames, read, rest, _ => by
    rw [memberTokens]
    · simp only [List.cons_append, List.append_assoc]
      rw [run_key, run_tokens value, run_cons rfl,
        run_memberTokens (next :: members) frames ((key, value) :: read) rest
          (List.cons_ne_nil _ _), List.reverse_cons, List.append_assoc]
      rfl
    · exact List.cons_ne_nil next members

end

/-- The tokens of a literal are read as that literal. -/
theorem ofTokens?_tokens (literal : Literal) : ofTokens? literal.tokens = some literal := by
  have hrun := run_tokens literal [] []
  rw [List.append_nil] at hrun
  rw [ofTokens?, hrun]
  rfl

end Json.Literal

namespace Value

open Json

theorem escaping_sound : escaping.Sound where
  letters _ _ := Text.Escaping.escaped?_of_lookup (by decide)
  coded := by
    intro c h
    simp only [escaping, Text.isControl, Bool.or_eq_true, Bool.and_eq_true, decide_eq_true_eq] at h
    omega
  covers := by
    intro c hletter hcoded
    simp only [escaping, Text.isControl, Bool.or_eq_false_iff, decide_eq_false_iff_not] at hcoded
    refine ⟨?_, ?_, by omega⟩
    · rintro rfl
      cases hletter
    · rintro rfl
      cases hletter

theorem spells_null : Token.Spells "null".toList [.null] :=
  Token.spells_word rfl (List.cons_ne_nil _ _) rfl

theorem spells_floatChars (x : Double) :
    Token.Spells (floatChars x) (literal (.float x)).tokens := by
  cases x with
  | finite negative rank => exact Token.spells_numeral (Numeral.ofChars?_floatChars negative rank)
  | infinite | nan => exact spells_null

mutual

theorem spells_chars : (v : Value) → Token.Spells v.chars v.literal.tokens
  | null => spells_null
  | bool true => Token.spells_word rfl (List.cons_ne_nil _ _) rfl
  | bool false => Token.spells_word rfl (List.cons_ne_nil _ _) rfl
  | int n => Token.spells_numeral (Numeral.ofChars?_toString n.toInt)
  | float x => spells_floatChars x
  | str s => Token.spells_quote escaping_sound s
  | arr items => (Token.Spells.mark rfl (spells_itemsChars items)).append
      (Token.Spells.mark rfl Token.spells_nil) (Token.delimited_cons rfl [])
  | obj members => (Token.Spells.mark rfl (spells_membersChars members)).append
      (Token.Spells.mark rfl Token.spells_nil) (Token.delimited_cons rfl [])

theorem spells_itemsChars : (items : List Value) →
    Token.Spells (itemsChars items) (Literal.itemTokens (itemLiterals items))
  | [] => Token.spells_nil
  | [item] => spells_chars item
  | item :: next :: items => by
    have hitems := (spells_chars item).append
      (Token.Spells.mark (c := ',') rfl (spells_itemsChars (next :: items)))
      (Token.delimited_cons rfl _)
    exact hitems

theorem spells_membersChars : (members : List (String × Value)) →
    Token.Spells (membersChars members) (Literal.memberTokens (memberLiterals members))
  | [] => Token.spells_nil
  | [(key, value)] => (Token.spells_quote escaping_sound key).append
      (Token.Spells.mark rfl (spells_chars value)) (Token.delimited_cons rfl _)
  | (key, value) :: next :: members => by
    have hmember := (Token.spells_quote escaping_sound key).append
      (Token.Spells.mark (c := ':') rfl (spells_chars value)) (Token.delimited_cons rfl _)
    have hmembers := hmember.append
      (Token.Spells.mark (c := ',') rfl (spells_membersChars (next :: members)))
      (Token.delimited_cons rfl _)
    exact hmembers

end

/-- The text of a value is read as its literal. -/
theorem ofText?_display (v : Value) : Literal.ofText? v.display = some v.literal := by
  rw [Literal.ofText?, display, String.toList_ofList, (spells_chars v).ofChars?]
  exact Literal.ofTokens?_tokens v.literal

end Value

end DocQuery
