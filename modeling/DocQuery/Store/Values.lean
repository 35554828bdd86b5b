import DocQuery.Json.Text

/-!
# How a store computes with values

Comparison, truth and arithmetic of JSON values. Numbers compare by a given
order, either exactly or as doubles; arithmetic is exact and rounded once to a
double. `none` stands for an operation that the store stops at.
-/

namespace DocQuery

namespace Binary64

/-- One in units of the smallest subnormal. -/
def unitsOfOne : Nat := Nat.pow 2 1074

/-- The value in units of the smallest subnormal; an infinity counts as the next
number of the largest binade. -/
def units (x : Binary64) : Int :=
  let m := x.significand * Nat.pow 2 x.scale
  if x.negative then -m else m

/-- The double nearest to a fraction. -/
def ofFraction (num : Int) (den : Nat) : Binary64 := ofRatio (num < 0) num.natAbs den

end Binary64

namespace Number

/-- The value in units of the smallest subnormal double. -/
def units : Number → Int
  | .int n => n * Binary64.unitsOfOne
  | .float x => x.units

def toDouble : Number → Binary64
  | .int n => .ofFraction n 1
  | .float x => x

/-- The order of values. -/
def compareExactly (x y : Number) : Ordering := compare x.units y.units

/-- The order of values after rounding both to doubles. -/
def compareAsDoubles (x y : Number) : Ordering := compare x.toDouble.units y.toDouble.units

end Number

namespace Json

def items? : Json → Option (List Json)
  | .array items => some items
  | _ => none

@[simp] theorem items?_array (items : List Json) : (array items).items? = some items := rfl

def string? : Json → Option String
  | .string s => some s
  | _ => none

def number? : Json → Option Number
  | .number n => some n
  | _ => none

/-- A position in an array. -/
def index? : Json → Option Nat
  | .number (.int n) => if 0 ≤ n then some n.toNat else none
  | _ => none

/-- All values but `null` and `false` count as true. -/
def isTrue : Json → Bool
  | .null | .bool false => false
  | _ => true

/-- The value of a field, `null` where there is none. -/
def fieldOrNull (key : String) (v : Json) : Json := (v.field? key).getD .null

mutual

/-- The order of values over an order of numbers: arrays place by place, strings
by their characters, anything else that differs by its text. -/
def compareBy (order : Number → Number → Ordering) : Json → Json → Ordering
  | .number x, .number y => order x y
  | .string x, .string y => compare x y
  | .array xs, .array ys => compareItemsBy order xs ys
  | v, w => if v.sameValue w then .eq else compare v.text w.text

def compareItemsBy (order : Number → Number → Ordering) : List Json → List Json → Ordering
  | [], [] => .eq
  | [], _ :: _ => .lt
  | _ :: _, [] => .gt
  | x :: xs, y :: ys => (compareBy order x y).then (compareItemsBy order xs ys)

end

/-- A double as a result: a whole number becomes a 64-bit integer, saturated at
the ends, and an infinity has no value. -/
def ofDouble (x : Binary64) : Json :=
  if !x.isFinite then .null
  else if x.units % Binary64.unitsOfOne = 0 then
    .int (max (-9223372036854775808) (min 9223372036854775807 (x.units / Binary64.unitsOfOne)))
  else .float x

/-- The four operations on doubles; a quotient by zero has no value. -/
def add (x y : Binary64) : Json := ofDouble (.ofFraction (x.units + y.units) Binary64.unitsOfOne)

def sub (x y : Binary64) : Json := ofDouble (.ofFraction (x.units - y.units) Binary64.unitsOfOne)

def mul (x y : Binary64) : Json :=
  ofDouble (.ofFraction (x.units * y.units) (Binary64.unitsOfOne * Binary64.unitsOfOne))

def div (x y : Binary64) : Json :=
  if y.units = 0 then .null
  else ofDouble (.ofFraction (x.units * y.units.sign) y.units.natAbs)

example : (add (.ofDecimal false 1 (-1)) (.ofDecimal false 2 (-1))).text =
    "0.30000000000000004" := by decide +kernel

end Json

end DocQuery
