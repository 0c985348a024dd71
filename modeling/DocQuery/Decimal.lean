/-!
Decimal numbers: a significand and a power of ten, and the two ways to write one down.
-/

namespace DocQuery

/-- The number `significand · 10 ^ exponent`. -/
structure Decimal where
  significand : Nat
  exponent : Int
  deriving DecidableEq, Repr

namespace Decimal

/-- Numerator of the value as a quotient of natural numbers. -/
def num (d : Decimal) : Nat := d.significand * Nat.pow 10 d.exponent.toNat

def den (d : Decimal) : Nat := Nat.pow 10 (-d.exponent).toNat

def digits (d : Decimal) : List Char := Nat.toDigits 10 d.significand

/-- The power of ten of the leading digit. -/
def leading (d : Decimal) : Int := d.digits.length - 1 + d.exponent

/-- Plain positional writing, with at least one digit on either side of the point. -/
def positional (d : Decimal) : List Char :=
  let digits := d.digits
  if 0 ≤ d.exponent then
    digits ++ List.replicate d.exponent.toNat '0' ++ ['.', '0']
  else if 0 ≤ d.leading then
    let whole := d.leading.toNat + 1
    digits.take whole ++ '.' :: digits.drop whole
  else
    '0' :: '.' :: List.replicate (-d.leading - 1).toNat '0' ++ digits

/-- Writing with a power of ten: one digit before the point, and no point if nothing follows. -/
def scientific (d : Decimal) : List Char :=
  let mantissa := match d.digits with
    | [] => []
    | [digit] => [digit]
    | digit :: rest => digit :: '.' :: rest
  mantissa ++ 'e' :: (toString d.leading).toList

/-- Which numbers are written positionally: those whose leading digit stands in this range. -/
structure Layout where
  /-- The least power of ten of a leading digit that is written positionally. -/
  leastPositional : Int
  /-- The least power of ten of a leading digit, above those, that is not. -/
  positionalBelow : Int

def write (layout : Layout) (d : Decimal) : List Char :=
  if layout.leastPositional ≤ d.leading ∧ d.leading < layout.positionalBelow then d.positional
  else d.scientific

end Decimal

end DocQuery
