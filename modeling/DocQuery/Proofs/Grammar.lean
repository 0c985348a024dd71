import DocQuery.Proofs.Spelling
import Mathlib.Data.List.Forall2

/-! Tokens are read as a literal just if they are the literal's own. So the texts of items, and of
keys and values, can be put together to the text of their container, whatever they hold. -/

namespace DocQuery.Json

namespace Token

/-- A text that is read whole is read alike before a delimiter: of its tokens, only a word at the
end has to wait for what comes after it. -/
theorem scan_append {mode : Mode} {chars : List Char} {tokens : List Token}
    (h : scan mode chars = some tokens) {rest : List Char} (hrest : Delimited rest) :
    scan mode (chars ++ rest) = (scan .between rest).map (tokens ++ ·) := by
  -- for every mode, as the characters after the first are read from the mode it leads to
  induction chars generalizing mode tokens with
  | nil =>
    rw [scan] at h
    cases mode with
    | between =>
      cases h
      exact Option.map_id'.symm
    | word read =>
      obtain ⟨token, htoken, htokens⟩ := Option.map_eq_some_iff.mp h
      rw [← htokens]
      exact scan_word_end htoken hrest
    | quoted _ | escape _ | unit _ _ _ => cases h
  | cons c cs ih =>
    obtain ⟨⟨first, next⟩, hstep, hscan⟩ := Option.bind_eq_some_iff.mp h
    obtain ⟨later, hlater, htokens⟩ := Option.bind_eq_some_iff.mp hscan
    rw [List.cons_append, scan_cons hstep, ih hlater, Option.map_map, ← Option.some.inj htokens]
    simp only [Function.comp_def, List.append_assoc]

theorem spells_of_ofChars? {chars : List Char} {tokens : List Token}
    (h : ofChars? chars = some tokens) : Spells chars tokens :=
  fun _ hrest => scan_append h hrest

end Token

namespace Literal

theorem frameTokens_cons (frame : Frame) (frames : List Frame) :
    frameTokens (frame :: frames) = frameTokens frames ++ frame.tokens := by
  rw [frameTokens, List.reverse_cons, List.flatMap_append, List.flatMap_singleton]
  rfl

/-- What stands before the last of some lists is each list with its separator. -/
theorem intercalate_concat {α : Type} (separator : List α) (lists : List (List α)) (last : List α) :
    separator.intercalate (lists ++ [last]) = lists.flatMap (· ++ separator) ++ last := by
  induction lists with
  | nil => exact List.intercalate_singleton
  | cons first lists ih =>
    have hlists : separator.intercalate (first :: (lists ++ [last])) =
        first ++ separator ++ separator.intercalate (lists ++ [last]) := by
      cases lists <;> exact List.intercalate_cons_cons
    rw [List.cons_append, hlists, ih, List.flatMap_cons, List.append_assoc _ _ last]

theorem itemTokens_eq_intercalate (items : List Literal) :
    itemTokens items = [Token.comma].intercalate (items.map tokens) := by
  induction items with
  | nil => rfl
  | cons item items ih =>
    cases items with
    | nil => exact List.intercalate_singleton.symm
    | cons next items =>
      rw [itemTokens, ih, List.map_cons, List.map_cons, List.map_cons,
        List.intercalate_cons_cons, List.append_assoc]
      · rfl
      · exact List.cons_ne_nil _ _

theorem memberTokens_eq_intercalate (members : List (Option String × Literal)) :
    memberTokens members = [Token.comma].intercalate (members.map entryTokens) := by
  induction members with
  | nil => rfl
  | cons member members ih =>
    cases members with
    | nil => exact List.intercalate_singleton.symm
    | cons next members =>
      rw [memberTokens, ih, List.map_cons, List.map_cons, List.map_cons,
        List.intercalate_cons_cons, List.append_assoc]
      · rfl
      · exact List.cons_ne_nil _ _

theorem itemTokens_concat (items : List Literal) (last : Literal) :
    itemTokens (items ++ [last]) = leadingItems items ++ last.tokens := by
  rw [itemTokens_eq_intercalate, List.map_append, List.map_singleton, intercalate_concat,
    List.flatMap_map]
  rfl

theorem memberTokens_concat (members : List (Option String × Literal)) (key : Option String)
    (last : Literal) :
    memberTokens (members ++ [(key, last)]) =
      leadingMembers members ++ .string key :: .colon :: last.tokens := by
  rw [memberTokens_eq_intercalate, List.map_append, List.map_singleton, intercalate_concat,
    List.flatMap_map]
  rfl

theorem begin?_tokens {frames : List Frame} {token : Token} {next : State}
    (h : begin? frames token = some next) : next.tokens = frameTokens frames ++ [token] := by
  cases token <;> cases h <;> rfl

/-- A step reads one token. -/
theorem step_tokens {state next : State} {token : Token} (h : step state token = some next) :
    next.tokens = state.tokens ++ [token] := by
  have hempty (frames : List Frame) :
      frameTokens (.array [] :: frames) = frameTokens frames ++ [.beginArray] :=
    frameTokens_cons _ _
  unfold step at h
  split at h
  case h_1 => exact begin?_tokens h
  case h_3 =>
    -- the first item of an array, which is open from here on
    rw [begin?_tokens h, hempty]
    rfl
  case h_12 => cases h
  -- the other tokens are marks and keys, and what they close is in order again
  all_goals
    cases h
    simp [State.tokens, frameTokens_cons, Frame.tokens, leadingItems, leadingMembers, entryTokens,
      tokens, itemTokens, itemTokens_concat, memberTokens, memberTokens_concat]

/-- What has been read is what there was to read. -/
theorem tokens_of_run {state final : State} {tokens : List Token}
    (h : run state tokens = some final) : final.tokens = state.tokens ++ tokens := by
  induction tokens generalizing state with
  | nil =>
    rw [run] at h
    rw [Option.some.inj h, List.append_nil]
  | cons token tokens ih =>
    obtain ⟨next, hstep, hrun⟩ := Option.bind_eq_some_iff.mp h
    rw [ih hrun, step_tokens hstep, List.append_assoc]
    rfl

theorem ofTokens?_eq_some_iff {tokens : List Token} {literal : Literal} :
    ofTokens? tokens = some literal ↔ tokens = literal.tokens := by
  constructor
  · intro h
    unfold ofTokens? at h
    split at h
    · -- no container is open at the end, so all that has been read is the literal
      rename_i hrun
      have hread := tokens_of_run hrun
      rw [Option.some.inj h] at hread
      exact hread.symm
    · cases h
  · rintro rfl
    exact ofTokens?_tokens literal

/-- The text of a literal is one that spells its tokens. -/
theorem ofText?_eq_some_iff {text : String} {literal : Literal} :
    ofText? text = some literal ↔ Token.Spells text.toList literal.tokens := by
  constructor
  · intro h
    obtain ⟨tokens, hscan, hread⟩ := Option.bind_eq_some_iff.mp h
    rw [← ofTokens?_eq_some_iff.mp hread]
    exact Token.spells_of_ofChars? hscan
  · intro h
    rw [ofText?, h.ofChars?]
    exact ofTokens?_tokens literal

theorem spells_intercalate {texts : List (List Char)} {tokens : List (List Token)}
    (h : List.Forall₂ Token.Spells texts tokens) :
    Token.Spells ([','].intercalate texts) ([Token.comma].intercalate tokens) := by
  induction h with
  | nil => exact Token.spells_nil
  | @cons text first texts tokens hfirst htexts ih =>
    cases htexts with
    | nil =>
      rw [List.intercalate_singleton, List.intercalate_singleton]
      exact hfirst
    | cons hnext htexts =>
      -- the comma ends a word before it, and is a mark for what comes after
      rw [List.intercalate_cons_cons, List.intercalate_cons_cons, List.append_assoc,
        List.append_assoc]
      exact hfirst.append (Token.Spells.mark (c := ',') rfl ih) (Token.delimited_cons rfl _)

/-- Texts of literals make the text of the array that holds those. -/
theorem ofText?_arrayText {texts : List String} {items : List Literal}
    (h : List.Forall₂ (fun text item => ofText? text = some item) texts items) :
    ofText? (arrayText texts) = some (.array items) := by
  have hitems : Token.Spells (",".intercalate texts).toList (itemTokens items) := by
    rw [String.toList_intercalate, itemTokens_eq_intercalate]
    apply spells_intercalate
    rw [List.forall₂_map_left_iff, List.forall₂_map_right_iff]
    exact h.imp fun _ _ => ofText?_eq_some_iff.mp
  rw [ofText?_eq_some_iff, arrayText, String.toList_append, String.toList_append, tokens]
  exact (Token.Spells.mark (c := '[') rfl hitems).append
    (Token.Spells.mark (c := ']') rfl Token.spells_nil) (Token.delimited_cons rfl [])

/-- Texts of keys and of literals make the text of the object that holds those. -/
theorem ofText?_objectText {texts : List (String × String)}
    {members : List (Option String × Literal)}
    (h : List.Forall₂ (fun text member => ofText? text.1 = some (.string member.1) ∧
      ofText? text.2 = some member.2) texts members) :
    ofText? (objectText texts) = some (.object members) := by
  have hmembers : Token.Spells
      (",".intercalate (texts.map fun text => text.1 ++ ":" ++ text.2)).toList
      (memberTokens members) := by
    rw [String.toList_intercalate, memberTokens_eq_intercalate]
    apply spells_intercalate
    rw [List.map_map, List.forall₂_map_left_iff, List.forall₂_map_right_iff]
    refine h.imp fun text member hmember => ?_
    obtain ⟨hkey, hvalue⟩ := hmember.imp ofText?_eq_some_iff.mp ofText?_eq_some_iff.mp
    have hentry := hkey.append (Token.Spells.mark (c := ':') rfl hvalue)
      (Token.delimited_cons rfl _)
    rw [Function.comp_apply, String.toList_append, String.toList_append, List.append_assoc]
    exact hentry
  rw [ofText?_eq_some_iff, objectText, String.toList_append, String.toList_append, tokens]
  exact (Token.Spells.mark (c := '\x7b') rfl hmembers).append
    (Token.Spells.mark (c := '\x7d') rfl Token.spells_nil) (Token.delimited_cons rfl [])

end Literal

end DocQuery.Json
