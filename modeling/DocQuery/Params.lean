import DocQuery.Rejection

/-!
# Parameters

The values that a query refers to by position. Positions are 64-bit words, so
the end of a slice has to be one as well.
-/

namespace DocQuery

abbrev Params := List Json

namespace Params

/-- One past the largest position. -/
def positions : Nat := Nat.pow 2 64

def value (params : Params) (index : Nat) : Except Rejection Json :=
  match params[index]? with
  | some v => .ok v
  | none => .error (.parameterMissing index params.length)

/-- A run of parameters; also an empty run has to lie within them. -/
def slice (params : Params) (start count : Nat) : Except Rejection (List Json) :=
  let stop := start + count
  if positions ≤ stop then .error (.sliceOverflow start count)
  else if stop ≤ params.length then .ok ((params.drop start).take count)
  else .error (.sliceMissing start stop params.length)

/-- The items of a parameter that is used as a list. -/
def items (params : Params) (index : Nat) : Except Rejection (List Json) := do
  match ← params.value index with
  | .array items => .ok items
  | v => .error (.parameterNotList index v)

end Params

end DocQuery
