/-!
Quoted text: how a string is written between quotation marks, and what the written content spells.
-/

namespace DocQuery.Text

/-- Which characters are written as an escape, and how. -/
structure Escaping where
  /-- Characters written as a backslash and a letter. -/
  letters : List (Char × Char)
  /-- Further characters, which are written by their code. -/
  coded : Char → Bool

/-- Four lower-case hexadecimal digits. -/
def hex4 (n : Nat) : List Char :=
  [n / 4096 % 16, n / 256 % 16, n / 16 % 16, n % 16].map Nat.digitChar

def Escaping.write (escaping : Escaping) (c : Char) : List Char :=
  match escaping.letters.lookup c with
  | some letter => ['\\', letter]
  | none => if escaping.coded c then '\\' :: 'u' :: hex4 c.toNat else [c]

/-- How a string is written, quotation marks included. -/
def Escaping.quote (escaping : Escaping) (s : String) : List Char :=
  '"' :: s.toList.flatMap escaping.write ++ ['"']

/-- Control characters: the code points below U+0020 and from U+007F to U+009F. -/
def isControl (c : Char) : Bool := c.toNat < 0x20 || (0x7f ≤ c.toNat && c.toNat ≤ 0x9f)

/-- The character that a backslash and a letter stand for. -/
def escaped? : Char → Option Char
  | '"' => some '"'
  | '\\' => some '\\'
  | '/' => some '/'
  | 'b' => some '\x08'
  | 'f' => some '\x0c'
  | 'n' => some '\n'
  | 'r' => some '\r'
  | 't' => some '\t'
  | _ => none

def hexDigit? (c : Char) : Option Nat :=
  if '0' ≤ c ∧ c ≤ '9' then some (c.toNat - '0'.toNat)
  else if 'a' ≤ c ∧ c ≤ 'f' then some (c.toNat - 'a'.toNat + 10)
  else if 'A' ≤ c ∧ c ≤ 'F' then some (c.toNat - 'A'.toNat + 10)
  else none

/-- A piece of quoted content: a character, or a UTF-16 code unit written by its number. -/
inductive Piece where
  | char (c : Char)
  | unit (u : Nat)
  deriving DecidableEq, Repr

def isHighSurrogate (u : Nat) : Bool := 0xd800 ≤ u && u < 0xdc00

def isLowSurrogate (u : Nat) : Bool := 0xdc00 ≤ u && u < 0xe000

def pairChar (high low : Nat) : Char :=
  Char.ofNat (0x10000 + (high - 0xd800) * 0x400 + (low - 0xdc00))

/-- What pieces spell; nothing if a surrogate stands without its partner. -/
def spell? : List Piece → Option (List Char)
  | [] => some []
  | .char c :: rest => (spell? rest).map (c :: ·)
  | .unit u :: .unit v :: rest =>
    if isHighSurrogate u then
      if isLowSurrogate v then (spell? rest).map (pairChar u v :: ·) else none
    else if isLowSurrogate u then none
    else (spell? (.unit v :: rest)).map (Char.ofNat u :: ·)
  | .unit u :: rest =>
    if isHighSurrogate u || isLowSurrogate u then none
    else (spell? rest).map (Char.ofNat u :: ·)

end DocQuery.Text
