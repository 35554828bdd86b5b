import DocQuery.Entries
import DocQuery.Number.Binary64

/-!
# JSON values

The documents, parameters and replies that travel to and from the store. A
number is an integer or a double and the two never mix: `1` is not `1.0`.
Objects keep the order of their keys, but two objects are the same value in any
order.
-/

namespace DocQuery

inductive Number
  | int (n : Int)
  | float (x : Binary64)
deriving DecidableEq

/-- Equality of numbers: floats by value, and never across the two kinds. -/
def Number.sameValue : Number → Number → Bool
  | .int a, .int b => a == b
  | .float x, .float y => x.sameValue y
  | _, _ => false

/-- A count: an integer that is not negative. -/
def Number.isCount : Number → Bool
  | .int n => 0 ≤ n
  | .float _ => false

inductive Json
  | null
  | bool (b : Bool)
  | number (n : Number)
  | string (s : String)
  | array (items : List Json)
  | object (fields : List (String × Json))

namespace Json

def int (n : Int) : Json := .number (.int n)

def float (x : Binary64) : Json := .number (.float x)

mutual

/-- Equality of values: arrays in order, objects in any order. -/
def sameValue : Json → Json → Bool
  | .null, .null => true
  | .bool a, .bool b => a == b
  | .number a, .number b => a.sameValue b
  | .string a, .string b => a == b
  | .array xs, .array ys => sameItems xs ys
  | .object xs, .object ys => xs.length == ys.length && foundIn xs ys
  | _, _ => false

/-- Equal lengths and equal values place by place. -/
def sameItems : List Json → List Json → Bool
  | [], [] => true
  | x :: xs, y :: ys => x.sameValue y && sameItems xs ys
  | _, _ => false

/-- Every field on the left is on the right with the same value. -/
def foundIn : List (String × Json) → List (String × Json) → Bool
  | [], _ => true
  | (k, v) :: rest, ys =>
    (match Entries.get? k ys with
      | some w => v.sameValue w
      | none => false) && foundIn rest ys

end

/-- The field of an object; nothing for a missing field or another value. -/
def field? (key : String) : Json → Option Json
  | .object fields => Entries.get? key fields
  | _ => none

end Json

end DocQuery
