/-!
# Double-precision numbers

A number of the 64-bit binary format, NaN left out. It is kept as a sign and a
magnitude: the magnitude counts the representable non-negative numbers from
zero upwards, so its order is the order of absolute values and infinity is the
largest magnitude. `ofDecimal` reads a decimal as the nearest such number, with
ties going to the even magnitude.
-/

namespace DocQuery

/-- A double-precision number other than NaN. -/
structure Binary64 where
  negative : Bool
  magnitude : Nat
  magnitude_le : magnitude ≤ 0x7FF0000000000000 := by decide
deriving DecidableEq

namespace Binary64

/-- The magnitude of infinity, one past the largest finite number. -/
def infinite : Nat := 0x7FF0000000000000

def isFinite (x : Binary64) : Bool := x.magnitude < infinite

/-- The integer `m` of `|x| = m * 2 ^ (scale - 1074)`, for a finite `x`. -/
def significand (x : Binary64) : Nat :=
  if x.magnitude < Nat.pow 2 52 then x.magnitude else Nat.pow 2 52 + x.magnitude % Nat.pow 2 52

/-- The exponent of `|x| = significand * 2 ^ (scale - 1074)`, for a finite `x`.
Subnormal numbers and the lowest normal binade share scale zero. -/
def scale (x : Binary64) : Nat := x.magnitude / Nat.pow 2 52 - 1

/-- Equality of values: the two zeros are equal. -/
def sameValue (x y : Binary64) : Bool :=
  x.magnitude == y.magnitude && (x.negative == y.negative || x.magnitude == 0)

/-- The quotient rounded to an integer, halves to the even neighbour. -/
def roundedQuotient (num den : Nat) : Nat :=
  let q := num / den
  let r := num % den
  if 2 * r < den then q else if den < 2 * r then q + 1 else q + q % 2

/-- The magnitude nearest to `num / den`. One unit is the smallest subnormal;
above `2 ^ 53` units the grid doubles with every binade. -/
def nearestMagnitude (num den : Nat) : Nat :=
  let units := num * Nat.pow 2 1074
  let scale := (units / den).log2 - 52
  min (scale * Nat.pow 2 52 + roundedQuotient units (den * Nat.pow 2 scale)) infinite

def ofRatio (negative : Bool) (num den : Nat) : Binary64 :=
  ⟨negative, nearestMagnitude num den, Nat.min_le_right ..⟩

def zero (negative : Bool) : Binary64 := ⟨negative, 0, by decide⟩

def infinity (negative : Bool) : Binary64 := ⟨negative, infinite, by decide⟩

/-- The number nearest to `coefficient * 10 ^ exponent`. Exponents far outside
the range of the format give zero or infinity without computing the power. -/
def ofDecimal (negative : Bool) (coefficient : Nat) (exponent : Int) : Binary64 :=
  if coefficient = 0 then zero negative
  else match exponent with
    | .ofNat e =>
      if 400 < e then infinity negative else ofRatio negative (coefficient * Nat.pow 10 e) 1
    | .negSucc e =>
      if coefficient.log2 + 1100 < 3 * (e + 1) then zero negative
      else ofRatio negative coefficient (Nat.pow 10 (e + 1))

theorem sameValue_refl (x : Binary64) : x.sameValue x = true := by
  simp [sameValue]

example : (ofDecimal false 1 309).isFinite = false := by decide +kernel
example : (ofDecimal false 5 (-324)).magnitude = 1 := by decide +kernel
example : (ofDecimal false 9007199254740993 0).significand = Nat.pow 2 52 := by decide +kernel

end Binary64

end DocQuery
