import DocQuery.Number.Binary64

/-!
# Shortest decimals

The decimal with the fewest digits that still reads back as a given
double-precision number. The reals that round to the number form an interval;
the coarsest power-of-ten grid with a point in that interval gives the digits,
and of two points the nearer is taken. Everything is exact integer arithmetic.
-/

namespace DocQuery

/-- The decimal `coefficient * 10 ^ exponent`. -/
structure Decimal where
  coefficient : Nat
  exponent : Int
deriving DecidableEq

/-- Which neighbour is taken when the number lies exactly between two points. -/
inductive Tie
  | toEven
  | up
deriving DecidableEq

/-- The reals that round to `value / unit`: from `low / unit` to `high / unit`,
the ends included exactly when `closed` holds. -/
structure RoundingInterval where
  low : Nat
  value : Nat
  high : Nat
  unit : Nat
  closed : Bool

namespace RoundingInterval

/-- Counted in quarters of the spacing above the number: the lower neighbour is
half as far away where a binade begins. -/
def of (x : Binary64) : RoundingInterval :=
  let m := x.significand
  let gap := if m = Nat.pow 2 52 ∧ 0 < x.scale then 1 else 2
  { low := (4 * m - gap) * Nat.pow 2 x.scale
    value := 4 * m * Nat.pow 2 x.scale
    high := (4 * m + 2) * Nat.pow 2 x.scale
    unit := Nat.pow 2 1076
    closed := m % 2 = 0 }

/-- Whether `point / scaled` lies in the interval enlarged by `factor`. -/
def holds (r : RoundingInterval) (factor point : Nat) : Bool :=
  if r.closed then r.low * factor ≤ point ∧ point ≤ r.high * factor
  else r.low * factor < point ∧ point < r.high * factor

/-- The best multiple of `10 ^ j` in the interval, if there is one. Only the two
neighbours of the value on that grid can be the best. -/
def onGrid? (r : RoundingInterval) (tie : Tie) (j : Int) : Option Nat :=
  let factor := Nat.pow 10 (-j).toNat
  let step := r.unit * Nat.pow 10 j.toNat
  let value := r.value * factor
  let below := value / step
  let above := below + 1
  match r.holds factor (below * step), r.holds factor (above * step) with
  | true, false => some below
  | false, true => some above
  | false, false => none
  | true, true =>
    let middle := (2 * below + 1) * step
    if 2 * value < middle then some below
    else if middle < 2 * value then some above
    else match tie with
      | .up => some above
      | .toEven => some (if below % 2 = 0 then below else above)

/-- An exponent from which on no power of ten lies below the end of the
interval: with `high / unit` under `2 ^ bits`, it is at least `bits * log 2`. -/
def topGrid (r : RoundingInterval) : Int :=
  let bits : Int := r.high.log2 + 1 - r.unit.log2
  if 0 ≤ bits then bits * 31 / 100 + 1 else bits * 3 / 10 + 1

/-- Searches the grids from `10 ^ j` downwards and stops at the first hit. -/
def coarsest? (r : RoundingInterval) (tie : Tie) (j : Int) : Nat → Option Decimal
  | 0 => none
  | steps + 1 =>
    match r.onGrid? tie j with
    | some c => some ⟨c, j⟩
    | none => r.coarsest? tie (j - 1) steps

end RoundingInterval

/-- The shortest decimal of `|x|`, for a finite `x`. The search begins at most a
dozen places above the leading digit, and a grid of seventeen digits always has
a point. -/
def Binary64.shortest (x : Binary64) (tie : Tie) : Decimal :=
  if x.magnitude = 0 then ⟨0, 0⟩
  else
    let r := RoundingInterval.of x
    (r.coarsest? tie r.topGrid 40).getD ⟨0, 0⟩

example : (Binary64.ofDecimal false 5 (-324)).shortest .toEven = ⟨5, -324⟩ := by decide +kernel
example : (Binary64.ofDecimal false 1 (-1)).shortest .toEven = ⟨1, -1⟩ := by decide +kernel
example : (Binary64.ofDecimal true 15 299).shortest .up = ⟨15, 299⟩ := by decide +kernel

end DocQuery
