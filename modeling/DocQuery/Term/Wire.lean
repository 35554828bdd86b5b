import DocQuery.Json.Text
import DocQuery.Term.Basic

/-!
# The wire form of terms

A term travels as JSON: an operation is `[code, [arguments]]`, with an object of
optional arguments as a third element when there are any. Scalars stand for
themselves and objects for objects, so an array is never literal: it is wrapped
as an operation, at every depth of a datum too.
-/

namespace DocQuery

namespace Json

mutual

/-- A datum on the wire: every array in it is wrapped. -/
def wire : Json → Json
  | .array items => .array [.int Term.Kind.makeArray.code, .array (wireItems items)]
  | .object fields => .object (wireFields fields)
  | v => v

def wireItems : List Json → List Json
  | [] => []
  | v :: rest => v.wire :: wireItems rest

def wireFields : List (String × Json) → List (String × Json)
  | [] => []
  | (k, v) :: rest => (k, v.wire) :: wireFields rest

end

end Json

namespace Term

mutual

/-- The JSON that the store receives for a term. A repeated key of an object or
of the optional arguments keeps its first place and its last value. -/
def wire : Term → Json
  | .datum v => v.wire
  | .makeArray items => .array [.int Kind.makeArray.code, .array (wireAll items)]
  | .makeObject entries => .object (Entries.ofPairs (wireEntries entries))
  | .var id => .array [.int Kind.var.code, .array [.int id]]
  | .func params body =>
    .array [.int Kind.func.code, .array
      [.array [.int Kind.makeArray.code, .array (params.map fun (p : Nat) => Json.int p)], body.wire]]
  | .op k args [] => .array [.int k.code, .array (wireAll args)]
  | .op k args (o :: os) =>
    .array [.int k.code, .array (wireAll args),
      .object (Entries.ofPairs (wireEntries (o :: os)))]

def wireAll : List Term → List Json
  | [] => []
  | t :: rest => t.wire :: wireAll rest

def wireEntries : List (String × Term) → List (String × Json)
  | [] => []
  | (k, t) :: rest => (k, t.wire) :: wireEntries rest

end

/-- The text of the wire form. -/
def text (t : Term) : String := t.wire.text

theorem wireAll_eq_map (ts : List Term) : wireAll ts = ts.map wire := by
  induction ts with
  | nil => rfl
  | cons t rest ih => rw [wireAll, List.map_cons, ih]

theorem wireEntries_eq_map (es : List (String × Term)) :
    wireEntries es = es.map fun e => (e.1, e.2.wire) := by
  induction es with
  | nil => rfl
  | cons e rest ih => rw [wireEntries, List.map_cons, ih]

example : ((Term.table (some "blog") "posts").wire.text) = "[15,[[14,[\"blog\"]],\"posts\"]]" := by
  decide +kernel

end Term

end DocQuery
