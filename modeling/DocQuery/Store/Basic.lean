import DocQuery.Store.Values
import DocQuery.Term.Basic

/-!
# Running terms on a store

The value of a term over the tables of a store, for the operations that joins
and expressions over rows are made of. Sequences are arrays and a table is the
array of its documents. `none` means that the store stops with an error.
-/

namespace DocQuery

/-- A document store. A table that does not exist has no documents. -/
structure Store where
  rows : String → List Json
  /-- The key field of a table, which a join by key uses unless another is named. -/
  primaryKey : String → String := fun _ => "id"
  compareNumbers : Number → Number → Ordering := Number.compareExactly
  /-- Search by a regular expression; nothing for a text that is none. -/
  search? : String → Option (String → Bool) := fun _ => none

/-- The values of the variables in sight. -/
abbrev Env := Nat → Option Json

namespace Env

def empty : Env := fun _ => none

def bind (ρ : Env) (id : Nat) (v : Json) : Env := fun i => if i = id then some v else ρ i

@[simp] theorem bind_self (ρ : Env) (id : Nat) (v : Json) : ρ.bind id v id = some v := by
  simp [bind]

theorem bind_of_ne {ρ : Env} {id i : Nat} {v : Json} (h : i ≠ id) : ρ.bind id v i = ρ i := by
  simp [bind, h]

end Env

namespace Store

def compare (store : Store) (v w : Json) : Ordering := v.compareBy store.compareNumbers w

/-- The comparison of two values as a test of their order. -/
def test (store : Store) (holds : Ordering → Bool) (v w : Option Json) : Option Json := do
  return .bool (holds (store.compare (← v) (← w)))

/-- An operation on two numbers, taken as doubles. -/
def calculate (f : Binary64 → Binary64 → Json) (v w : Option Json) : Option Json := do
  return f (← (← v).number?).toDouble (← (← w).number?).toDouble

/-- The conjunction of values, read from the left up to the first that is not true. -/
def all (vs : List (Option Json)) : Option Json := do
  return .bool (← vs.allM fun v => return (← v).isTrue)

/-- The disjunction of values, read from the left up to the first that is true. -/
def any (vs : List (Option Json)) : Option Json := do
  return .bool (← vs.anyM fun v => return (← v).isTrue)

/-- The operations on values. The database of a table is not looked at. -/
def compute (store : Store) : Term.Kind → List (Option Json) → Option Json
  | .table, [name] | .table, [_, name] => do return .array (store.rows (← (← name).string?))
  | .bracket, [v, key] => do return (← v).fieldOrNull (← (← key).string?)
  | .nth, [v, i] => do (← (← v).items?)[← (← i).index?]?
  | .append, [v, item] => do return .array ((← (← v).items?) ++ [← item])
  | .contains, [v, item] => do
    let items ← (← v).items?
    let item ← item
    return .bool (items.any fun w => w.sameValue item)
  | .matchRegex, [v, regex] => do
    let subject ← v
    let found ← store.search? (← (← regex).string?)
    return .bool (subject.string?.any found)
  | .eq, [v, w] => store.test Ordering.isEq v w
  | .ne, [v, w] => store.test Ordering.isNe v w
  | .lt, [v, w] => store.test Ordering.isLT v w
  | .le, [v, w] => store.test Ordering.isLE v w
  | .gt, [v, w] => store.test Ordering.isGT v w
  | .ge, [v, w] => store.test Ordering.isGE v w
  | .and, vs => all vs
  | .or, vs => any vs
  | .not, [v] => do return .bool !(← v).isTrue
  | .add, [v, w] => calculate Json.add v w
  | .sub, [v, w] => calculate Json.sub v w
  | .mul, [v, w] => calculate Json.mul v w
  | .div, [v, w] => calculate Json.div v w
  | _, _ => none

/-- The two halves of a joined pair. -/
def pair (left right : Json) : Json := .object [("left", left), ("right", right)]

@[simp] theorem left_pair (left right : Json) : (pair left right).fieldOrNull "left" = left := rfl

@[simp] theorem right_pair (left right : Json) : (pair left right).fieldOrNull "right" = right :=
  rfl

/-- Whether a document has the field and holds exactly the key there. -/
def holdsKey (field : String) (key document : Json) : Bool :=
  match document.field? field with
  | some v => v.sameValue key
  | none => false

end Store

namespace Term

/-- The field by which a join by key looks its right side up: the named index or
the primary key of the table. -/
def joinField (store : Store) (right : Term) (optargs : List (String × Term)) : String :=
  match Entries.get? "index" optargs, right with
  | some (.datum (.string name)), _ => name
  | _, .op .table [.datum (.string table)] _ => store.primaryKey table
  | _, .op .table [_, .datum (.string table)] _ => store.primaryKey table
  | _, _ => "id"

mutual

/-- The value of a term. A function has none; it runs where an operation takes
it. -/
def eval (store : Store) : Term → Env → Option Json
  | .datum v, _ => some v
  | .makeArray items, ρ => do return .array (← (evalAll store items ρ).mapM id)
  | .makeObject entries, ρ => do
    return .object (Entries.ofPairs (← evalEntries store entries ρ))
  | .var id, ρ => ρ id
  | .func .., _ => none
  | .op .map [seq, .func [x] body] _, ρ => do
    let items ← (← seq.eval store ρ).items?
    return .array (← items.mapM fun v => body.eval store (ρ.bind x v))
  | .op .eqJoin [left, .func [x] body, right] os, ρ => do
    let right' ← (← right.eval store ρ).items?
    let left' ← (← left.eval store ρ).items?
    let pairs ← left'.flatMapM fun l => do
      let key ← body.eval store (ρ.bind x l)
      return (right'.filter (Store.holdsKey (joinField store right os) key)).map (Store.pair l)
    return .array pairs
  | .op .innerJoin [left, right, .func [x, y] body] _, ρ => do
    let right' ← (← right.eval store ρ).items?
    let left' ← (← left.eval store ρ).items?
    let pairs ← left'.flatMapM fun l => right'.flatMapM fun r => do
      let accepted ← body.eval store ((ρ.bind x l).bind y r)
      return if accepted.isTrue then [Store.pair l r] else []
    return .array pairs
  | .op k args _, ρ => store.compute k (evalAll store args ρ)

/-- The values of all arguments, those that the operation may not look at
included. -/
def evalAll (store : Store) : List Term → Env → List (Option Json)
  | [], _ => []
  | t :: rest, ρ => t.eval store ρ :: evalAll store rest ρ

def evalEntries (store : Store) : List (String × Term) → Env → Option (List (String × Json))
  | [], _ => some []
  | (k, t) :: rest, ρ => do
    let v ← t.eval store ρ
    let vs ← evalEntries store rest ρ
    return (k, v) :: vs

end

end Term

end DocQuery
