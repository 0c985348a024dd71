import DocQuery.Decimal
/-!
Spelled numbers: an optional minus, digits without leading zeros, and an optional fraction and
exponent. The spelling alone decides whether a number is an integer or a double.
-/

namespace DocQuery.Json

structure Numeral where
  negative : Bool
  /-- The magnitude, all digits of whole part and fraction in the significand. -/
  decimal : Decimal
  /-- It has neither a fraction nor an exponent. -/
  integral : Bool
  deriving DecidableEq, Repr

namespace Numeral

def sign : List Char → Bool × List Char
  | '-' :: cs => (true, cs)
  | cs => (false, cs)

/-- The digits before the point: at least one, and zero only alone. -/
def isWhole (digits : List Char) : Bool :=
  digits == ['0'] || (!digits.isEmpty && digits.head? != some '0')

/-- The digits of a fraction, and the rest; a point needs a digit after it. -/
def fraction? : List Char → Option (List Char × List Char)
  | '.' :: cs =>
    let digits := cs.takeWhile Char.isDigit
    if digits.isEmpty then none else some (digits, cs.dropWhile Char.isDigit)
  | cs => some ([], cs)

/-- An exponent's number from what follows its letter: an optional sign, then digits to the end. -/
def power? (cs : List Char) : Option Int :=
  let (negative, digits) := match cs with
    | '-' :: digits => (true, digits)
    | '+' :: digits => (false, digits)
    | digits => (false, digits)
  if digits.isEmpty || !digits.all Char.isDigit then none
  else
    let n : Nat := Nat.ofDigitChars 10 digits 0
    some (if negative then -(n : Int) else n)

/-- The exponent that ends a number, if there is one. -/
def exponent? : List Char → Option (Option Int)
  | [] => some none
  | c :: cs => if c = 'e' ∨ c = 'E' then (power? cs).map some else none

def ofChars? (word : List Char) : Option Numeral :=
  let (negative, cs) := sign word
  let whole := cs.takeWhile Char.isDigit
  if isWhole whole then do
    let (fraction, cs) ← fraction? (cs.dropWhile Char.isDigit)
    let exponent ← exponent? cs
    let significand := Nat.ofDigitChars 10 (whole ++ fraction) 0
    return {
      negative
      decimal := ⟨significand, exponent.getD 0 - fraction.length⟩
      integral := fraction.isEmpty && exponent.isNone }
  else none

/-- The number with its sign, if it is an integer other than minus zero. -/
def integer? (n : Numeral) : Option Int :=
  if n.integral then
    let magnitude : Int := n.decimal.significand
    if n.negative then if magnitude = 0 then none else some (-magnitude) else some magnitude
  else none

end Numeral

end DocQuery.Json
