import DocQuery.Proofs.Numerals
import DocQuery.Json.Token

/-! Written text is read token by token: a word up to the delimiter after it, a mark by itself, and
quoted text up to the quotation mark that ends it, each character of it as it was before escaping. -/

namespace DocQuery

namespace Text

theorem hexDigit?_digitChar {n : Nat} (h : n < 16) : hexDigit? n.digitChar = some n := by
  have hall : ∀ n < 16, hexDigit? n.digitChar = some n := by decide
  exact hall n h

/-- No character is half of a surrogate pair. -/
theorem not_surrogate (c : Char) :
    isHighSurrogate c.toNat = false ∧ isLowSurrogate c.toNat = false := by
  have hvalid : c.toNat < 0xd800 ∨ 0xdfff < c.toNat := c.valid.imp id And.left
  simp only [isHighSurrogate, isLowSurrogate, Bool.and_eq_false_iff, decide_eq_false_iff_not]
  omega

theorem spell?_unit (c : Char) (rest : List Piece) :
    spell? (.unit c.toNat :: rest) = (spell? rest).map (c :: ·) := by
  obtain ⟨hhigh, hlow⟩ := not_surrogate c
  have hchar : Char.ofNat c.toNat = c := Char.ofNat_toNat c
  cases rest with
  | nil => simp [spell?, hhigh, hlow, hchar]
  | cons next rest => cases next <;> simp [spell?, hhigh, hlow, hchar]

namespace Escaping

/-- What is written can be read: every escape stands for its character, and no character is left as
it is that quoted text may not hold. -/
structure Sound (escaping : Escaping) : Prop where
  letters : ∀ c letter, escaping.letters.lookup c = some letter → escaped? letter = some c
  coded : ∀ c, escaping.coded c = true → c.toNat < 0x10000
  covers : ∀ c, escaping.letters.lookup c = none → escaping.coded c = false →
    c ≠ '"' ∧ c ≠ '\\' ∧ 0x20 ≤ c.toNat

/-- It is enough to look at each pair of the table. -/
theorem escaped?_of_lookup {escaping : Escaping}
    (h : ∀ pair ∈ escaping.letters, escaped? pair.2 = some pair.1) {c letter : Char}
    (hletter : escaping.letters.lookup c = some letter) : escaped? letter = some c := by
  obtain ⟨before, after, hletters, -⟩ := List.lookup_eq_some_iff.mp hletter
  exact h (c, letter) (hletters ▸ List.mem_append_right _ List.mem_cons_self)

/-- The piece of quoted content as which a character is written. -/
def piece (escaping : Escaping) (c : Char) : Piece :=
  if (escaping.letters.lookup c).isNone && escaping.coded c then .unit c.toNat else .char c

theorem spell?_pieces (escaping : Escaping) (cs : List Char) :
    spell? (cs.map escaping.piece) = some cs := by
  induction cs with
  | nil => rfl
  | cons c cs ih =>
    rw [List.map_cons, piece]
    split
    · rw [spell?_unit, ih]
      rfl
    · rw [spell?, ih]
      rfl

end Escaping

end Text

namespace Json.Token

theorem scan_cons {mode next : Mode} {c : Char} {tokens : List Token}
    (h : step mode c = some (tokens, next)) (cs : List Char) :
    scan mode (c :: cs) = (scan next cs).map (tokens ++ ·) := by
  rw [scan, h]
  change (scan next cs).bind (fun rest => some (tokens ++ rest)) = _
  cases scan next cs <;> rfl

theorem scan_cons_silent {mode next : Mode} {c : Char} (h : step mode c = some ([], next))
    (cs : List Char) : scan mode (c :: cs) = scan next cs := by
  rw [scan_cons h]
  cases scan next cs <;> rfl

theorem mem_of_isDelimiter {c : Char} (h : isDelimiter c = true) :
    c ∈ [' ', '\t', '\n', '\r', '"', '[', ']', '{', '}', ',', ':'] := by
  simp only [isDelimiter, isBlank, Bool.or_eq_true, beq_iff_eq] at h
  rcases h with (hblank | rfl) | hmark
  · rcases hblank with ((rfl | rfl) | rfl) | rfl <;> decide
  · decide
  · unfold mark? at hmark
    split at hmark <;> first | decide | cases hmark

theorem not_delimiter_of_numeric {c : Char} (h : Numeral.Numeric c) : isDelimiter c = false := by
  have hother : [' ', '\t', '\n', '\r', '"', '[', ']', '{', '}', ',', ':'].all
      (fun d => !(d.isDigit || ['-', '+', '.', 'e', 'E'].contains d)) = true := rfl
  have hnumeric : (c.isDigit || ['-', '+', '.', 'e', 'E'].contains c) = true :=
    Bool.or_eq_true_iff.mpr (h.imp_right List.contains_iff_mem.mpr)
  cases hc : isDelimiter c with
  | false => rfl
  | true =>
    have hnone := List.all_eq_true.mp hother c (mem_of_isDelimiter hc)
    rw [hnumeric] at hnone
    cases hnone

theorem start_of_mark {c : Char} {token : Token} (h : mark? c = some token) :
    start c = ([token], .between) := by
  have hblank : isBlank c = false := by
    unfold mark? at h
    split at h <;> first | rfl | cases h
  have hquote : c ≠ '"' := by
    rintro rfl
    cases h
  rw [start, hblank, if_neg hquote, h]
  rfl

theorem start_of_not_delimiter {c : Char} (h : isDelimiter c = false) :
    start c = ([], .word [c]) := by
  simp only [isDelimiter, Bool.or_eq_false_iff, beq_eq_false_iff_ne, Option.isSome_eq_false_iff,
    Option.isNone_iff_eq_none] at h
  obtain ⟨⟨hblank, hquote⟩, hmark⟩ := h
  rw [start, hblank, if_neg hquote, hmark]
  rfl

/-- What may come after a word. -/
def Delimited (rest : List Char) : Prop := ∀ c cs, rest = c :: cs → isDelimiter c = true

/-- The characters are read as the tokens, before the end of a text and before any delimiter. -/
def Spells (chars : List Char) (tokens : List Token) : Prop :=
  ∀ rest, Delimited rest → scan .between (chars ++ rest) = (scan .between rest).map (tokens ++ ·)

theorem delimited_nil : Delimited [] := nofun

theorem delimited_cons {c : Char} (h : isDelimiter c = true) (cs : List Char) :
    Delimited (c :: cs) := by
  intro d ds heq
  rw [← (List.cons.inj heq).1]
  exact h

theorem Delimited.append {xs ys : List Char} (hx : Delimited xs) (hy : Delimited ys) :
    Delimited (xs ++ ys) := by
  cases xs with
  | nil => exact hy
  | cons c cs => exact delimited_cons (hx c cs rfl) (cs ++ ys)

theorem Spells.ofChars? {chars : List Char} {tokens : List Token} (h : Spells chars tokens) :
    ofChars? chars = some tokens := by
  have hread := h [] delimited_nil
  rw [List.append_nil] at hread
  rw [Token.ofChars?, hread]
  exact congrArg some (List.append_nil tokens)

theorem spells_nil : Spells [] [] := by
  intro rest _
  cases h : scan .between rest <;> simp [h]

theorem Spells.append {xs ys : List Char} {tokens more : List Token} (hx : Spells xs tokens)
    (hy : Spells ys more) (hdelimited : Delimited ys) : Spells (xs ++ ys) (tokens ++ more) := by
  intro rest hrest
  rw [List.append_assoc, hx _ (hdelimited.append hrest), hy rest hrest, Option.map_map]
  simp only [Function.comp_def, List.append_assoc]

/-- A mark ends itself, so that anything may come after it. -/
theorem Spells.mark {c : Char} {token : Token} (h : mark? c = some token) {chars : List Char}
    {tokens : List Token} (hchars : Spells chars tokens) :
    Spells (c :: chars) (token :: tokens) := by
  intro rest hrest
  have hstep : step .between c = some ([token], .between) := congrArg some (start_of_mark h)
  rw [List.cons_append, scan_cons hstep, hchars rest hrest, Option.map_map]
  rfl

theorem scan_word_append {word : List Char} (h : ∀ c ∈ word, isDelimiter c = false)
    (read rest : List Char) :
    scan (.word read) (word ++ rest) = scan (.word (word.reverse ++ read)) rest := by
  induction word generalizing read with
  | nil => rfl
  | cons c word ih =>
    obtain ⟨hc, hword⟩ := List.forall_mem_cons.mp h
    have hstep : step (.word read) c = some ([], .word (c :: read)) := by
      rw [step, hc]
      rfl
    rw [List.cons_append, scan_cons_silent hstep, ih hword, List.reverse_cons, List.append_assoc]
    rfl

theorem scan_word_end {read rest : List Char} {token : Token}
    (hread : ofWord? read.reverse = some token) (hrest : Delimited rest) :
    scan (.word read) rest = (scan .between rest).map (token :: ·) := by
  cases rest with
  | nil =>
    rw [scan, finish, hread]
    rfl
  | cons c cs =>
    -- the delimiter completes the word, and is read as it would be between tokens
    have hstep : step (.word read) c = some (token :: (start c).1, (start c).2) := by
      rw [step, hrest c cs rfl, if_pos rfl, hread]
      rfl
    have hbetween : step .between c = some ((start c).1, (start c).2) := rfl
    rw [scan_cons hstep, scan_cons hbetween, Option.map_map]
    rfl

theorem spells_word {word : List Char} {token : Token} (hread : ofWord? word = some token)
    (hne : word ≠ []) (hall : word.all (fun c => !isDelimiter c) = true) :
    Spells word [token] := by
  intro rest hrest
  have h : ∀ c ∈ word, isDelimiter c = false := by
    intro c hc
    exact (Bool.not_eq_true' _).mp (List.all_eq_true.mp hall c hc)
  cases word with
  | nil => exact absurd rfl hne
  | cons c word =>
    obtain ⟨hc, hword⟩ := List.forall_mem_cons.mp h
    have hstep : step .between c = some ([], .word [c]) :=
      congrArg some (start_of_not_delimiter hc)
    have htoken : ofWord? (word.reverse ++ [c]).reverse = some token := by
      rw [← List.reverse_cons, List.reverse_reverse, hread]
    rw [List.cons_append, scan_cons_silent hstep, scan_word_append hword,
      scan_word_end htoken hrest]
    rfl

theorem spells_numeral {word : List Char} {n : Numeral} (h : Numeral.ofChars? word = some n) :
    Spells word [.number n] := by
  have hword : ofWord? word = some (.number n) := by
    -- the three names are no numbers
    have hother {other : List Char} (hnone : Numeral.ofChars? other = none) : word ≠ other := by
      rintro rfl
      rw [h] at hnone
      cases hnone
    rw [ofWord?, if_neg (hother rfl), if_neg (hother rfl), if_neg (hother rfl), h]
    rfl
  have hne : word ≠ [] := by
    intro hnil
    rw [hnil] at h
    cases h
  have hall : word.all (fun c => !isDelimiter c) = true := by
    apply List.all_eq_true.mpr
    intro c hc
    rw [not_delimiter_of_numeric (Numeral.numeric_of_ofChars? h hc)]
    rfl
  exact spells_word hword hne hall

/-- Four digits are read as the code unit that they were written for. -/
theorem scan_hex4 {n : Nat} (h : n < 0x10000) (read : List Text.Piece) (rest : List Char) :
    scan (.unit read 0 0) (Text.hex4 n ++ rest) = scan (.quoted (.unit n :: read)) rest := by
  have hstep (digits value digit : Nat) (hdigit : digit < 16) (hdigits : digits ≠ 3) :
      step (.unit read digits value) digit.digitChar =
        some ([], .unit read (digits + 1) (16 * value + digit)) := by
    rw [step, Text.hexDigit?_digitChar hdigit]
    simp [hdigits]
  have hlast (value digit : Nat) (hdigit : digit < 16) :
      step (.unit read 3 value) digit.digitChar =
        some ([], .quoted (.unit (16 * value + digit) :: read)) := by
    rw [step, Text.hexDigit?_digitChar hdigit]
    rfl
  have hdigit (k : Nat) : k % 16 < 16 := Nat.mod_lt _ (by decide)
  have hvalue : 16 * (16 * (16 * (16 * 0 + n / 4096 % 16) + n / 256 % 16) + n / 16 % 16) + n % 16 =
      n := by omega
  change scan (.unit read 0 0) ((n / 4096 % 16).digitChar :: (n / 256 % 16).digitChar ::
    (n / 16 % 16).digitChar :: (n % 16).digitChar :: rest) = _
  rw [scan_cons_silent (hstep 0 _ _ (hdigit _) (by decide)),
    scan_cons_silent (hstep 1 _ _ (hdigit _) (by decide)),
    scan_cons_silent (hstep 2 _ _ (hdigit _) (by decide)),
    scan_cons_silent (hlast _ _ (hdigit _)), hvalue]

/-- One written character is read as one piece. -/
theorem scan_write {escaping : Text.Escaping} (hsound : escaping.Sound) (c : Char)
    (read : List Text.Piece) (rest : List Char) :
    scan (.quoted read) (escaping.write c ++ rest) =
      scan (.quoted (escaping.piece c :: read)) rest := by
  have hescape : step (.quoted read) '\\' = some ([], .escape read) := rfl
  unfold Text.Escaping.write Text.Escaping.piece
  cases hletter : escaping.letters.lookup c with
  | some letter =>
    -- a backslash and a letter, which is not the one that announces four digits
    have hread : Text.escaped? letter = some c := hsound.letters c letter hletter
    have hplain : letter ≠ 'u' := by
      rintro rfl
      cases hread
    have hstep : step (.escape read) letter = some ([], .quoted (.char c :: read)) := by
      rw [step, if_neg hplain, hread]
      rfl
    exact (scan_cons_silent hescape _).trans (scan_cons_silent hstep rest)
  | none =>
    cases hcoded : escaping.coded c with
    | true =>
      have hunit : step (.escape read) 'u' = some ([], .unit read 0 0) := rfl
      exact ((scan_cons_silent hescape _).trans (scan_cons_silent hunit _)).trans
        (scan_hex4 (hsound.coded c hcoded) read rest)
    | false =>
      obtain ⟨hquote, hbackslash, hlow⟩ := hsound.covers c hletter hcoded
      have hstep : step (.quoted read) c = some ([], .quoted (.char c :: read)) := by
        rw [step, if_neg hquote, if_neg hbackslash, if_neg (Nat.not_lt.mpr hlow)]
      exact scan_cons_silent hstep rest

theorem scan_flatMap_write {escaping : Text.Escaping} (hsound : escaping.Sound) (cs : List Char)
    (read : List Text.Piece) (rest : List Char) :
    scan (.quoted read) (cs.flatMap escaping.write ++ rest) =
      scan (.quoted ((cs.map escaping.piece).reverse ++ read)) rest := by
  induction cs generalizing read with
  | nil => rfl
  | cons c cs ih =>
    rw [List.flatMap_cons, List.append_assoc, scan_write hsound, ih, List.map_cons,
      List.reverse_cons, List.append_assoc]
    rfl

/-- A quoted string is read as its content. -/
theorem spells_quote {escaping : Text.Escaping} (hsound : escaping.Sound) (s : String) :
    Spells (escaping.quote s) [.string (some s)] := by
  intro rest _
  have hopen : step .between '"' = some ([], .quoted []) := rfl
  have hpieces : ofPieces (s.toList.map escaping.piece) = .string (some s) := by
    rw [ofPieces, escaping.spell?_pieces]
    exact congrArg (fun s => Token.string (some s)) String.ofList_toList
  have hclose : step (.quoted (s.toList.map escaping.piece).reverse) '"' =
      some ([.string (some s)], .between) := by
    rw [step, if_pos rfl, List.reverse_reverse, hpieces]
  change scan .between ('"' :: (s.toList.flatMap escaping.write ++ ['"'] ++ rest)) = _
  rw [scan_cons_silent hopen, List.append_assoc, scan_flatMap_write hsound, List.append_nil,
    List.singleton_append, scan_cons hclose]

end Json.Token

end DocQuery
