/-!
Binary64 numbers as exact data: a sign and a rank among the finite magnitudes, an infinity, or NaN.
Every finite number is a whole number of units of 2⁻¹⁰⁷⁴, and comparison is done on those units.
-/

namespace DocQuery

/-- The number of finite magnitudes, zero included. -/
def Double.rankCount : Nat := 2047 <<< 52

/--
A binary64 number. The finite magnitudes are numbered in ascending order from zero, and `rank` is
that number; it is also what the 63 bits below the sign spell.
-/
inductive Double where
  | nan
  | infinite (negative : Bool)
  | finite (negative : Bool) (rank : Fin Double.rankCount)
  deriving DecidableEq, Repr

namespace Double

/-- The binary logarithm of the distance, in units, from the magnitude at a rank to the next. -/
def spacing (rank : Nat) : Nat := rank >>> 52 - 1

/-- The magnitude at a rank, in units of 2⁻¹⁰⁷⁴. -/
def unitsAt (rank : Nat) : Nat := (rank - spacing rank <<< 52) <<< spacing rank

/-- The number one, in units. -/
def unitsPerOne : Nat := 1 <<< 1074

def signed (negative : Bool) (magnitude : Nat) : Int :=
  if negative then -(magnitude : Int) else magnitude

/--
The exact value in units. An infinity stands one rank past the largest finite magnitude, which
keeps it beyond every finite number; NaN has no value.
-/
def units? : Double → Option Int
  | nan => none
  | infinite negative => some (signed negative (unitsAt rankCount))
  | finite negative rank => some (signed negative (unitsAt rank))

/-- The order of the exact values, both zeros being one value; NaN is unordered. -/
def compare? (x y : Double) : Option Ordering := do
  return compare (← x.units?) (← y.units?)

/-- Equality of the exact values: NaN differs from itself, and the two zeros are equal. -/
def equals (x y : Double) : Bool := x.compare? y == some .eq

def isFinite : Double → Bool
  | finite _ _ => true
  | infinite _ | nan => false

/-- The whole part, clamped to the range of 64-bit integers; NaN gives zero. -/
def truncate (x : Double) : Int64 :=
  match x.units? with
  | some units => Int64.ofIntClamp (units.tdiv unitsPerOne)
  | none => 0

/-- The number that a 64-bit pattern spells. All NaN patterns are one NaN. -/
def ofBits (bits : UInt64) : Double :=
  let negative := bits >>> 63 == 1
  let rank := (bits &&& 0x7fffffffffffffff).toNat
  if h : rank < rankCount then finite negative ⟨rank, h⟩
  else if rank = rankCount then infinite negative
  else nan

/-- The bit pattern of a number; NaN gets the quiet pattern. -/
def toBits : Double → UInt64
  | nan => 0x7ff8000000000000
  | infinite negative => signBit negative + UInt64.ofNat rankCount
  | finite negative rank => signBit negative + UInt64.ofNat rank
where
  signBit (negative : Bool) : UInt64 := if negative then 0x8000000000000000 else 0

/-- The rank in its parts: above the first binade each binade doubles the distance. -/
theorem unitsAt_eq (rank : Nat) :
    unitsAt rank = (rank - (rank / 4503599627370496 - 1) * 4503599627370496) <<<
      (rank / 4503599627370496 - 1) := by
  simp only [unitsAt, spacing, Nat.shiftLeft_eq, Nat.shiftRight_eq_div_pow]

/-- From one magnitude to the next it is one spacing. -/
theorem unitsAt_succ (rank : Nat) : unitsAt (rank + 1) = unitsAt rank + 1 <<< spacing rank := by
  have hs : spacing rank = rank / 4503599627370496 - 1 := by
    rw [spacing, Nat.shiftRight_eq_div_pow]
  simp only [unitsAt_eq, hs, Nat.shiftLeft_eq, Nat.one_mul]
  generalize he : rank / 4503599627370496 = e
  by_cases hsame : (rank + 1) / 4503599627370496 = e
  · rw [hsame, ← Nat.succ_mul]
    congr 1
    omega
  · have hnext : (rank + 1) / 4503599627370496 = e + 1 := by omega
    rw [hnext]
    cases e with
    | zero =>
      simp only [Nat.zero_add, Nat.sub_self, Nat.pow_zero]
      omega
    | succ k =>
      -- the last rank of a binade and the first of the next
      have hlast : rank - (k + 1 - 1) * 4503599627370496 = 9007199254740991 := by omega
      have hfirst : rank + 1 - (k + 1 + 1 - 1) * 4503599627370496 = 4503599627370496 := by omega
      rw [hlast, hfirst, Nat.add_sub_cancel, Nat.add_sub_cancel, Nat.pow_succ]
      omega

theorem unitsAt_lt {a b : Nat} (h : a < b) : unitsAt a < unitsAt b := by
  have step (rank : Nat) : unitsAt rank < unitsAt (rank + 1) := by
    rw [unitsAt_succ, Nat.shiftLeft_eq, Nat.one_mul]
    exact Nat.lt_add_of_pos_right (Nat.two_pow_pos _)
  induction h with
  | refl => exact step a
  | step _ ih => exact Nat.lt_trans ih (step _)

theorem lt_of_unitsAt_lt {a b : Nat} (h : unitsAt a < unitsAt b) : a < b := by
  rcases Nat.lt_trichotomy a b with hlt | heq | hgt
  · exact hlt
  · exact absurd h (heq ▸ Nat.lt_irrefl _)
  · exact absurd h (Nat.lt_asymm (unitsAt_lt hgt))

end Double

end DocQuery
