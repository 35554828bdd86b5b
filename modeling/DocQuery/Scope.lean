import DocQuery.Rejection

/-!
# Scopes

What an expression can see where it is evaluated. A joined record is an array
with one slot per relation, a single relation is the document itself, and a
grouped sequence holds buckets with the group key and the rows of the group.
-/

namespace DocQuery

inductive Scope
  /-- No row: a field stands for its own name. -/
  | empty
  /-- A record of `width` relations. -/
  | row (record : Term) (width : Nat)
  /-- Inside a join predicate: `left` is a record of the first `width` relations
  and `right` a document of the next one. -/
  | pair (left : Term) (width : Nat) (right : Term)
  /-- A group of records with its keys. -/
  | bucket (group : Term) (keys : List Expr) (width : Nat)
  /-- A whole sequence of records that is folded into one output row. -/
  | total (rows : Term) (width : Nat)

namespace Scope

/-- The document of a relation in a record. -/
def slot (record : Term) (width relation : Nat) : Except Rejection Term :=
  if width ≤ relation then .error (.unboundRelation relation)
  else if width = 1 then .ok record
  else .ok (record.nth relation)

/-- The document of a relation. -/
def document (relation : Nat) : Scope → Except Rejection Term
  | .empty => .error (.unboundRelation relation)
  | .row record width => slot record width relation
  | .pair left width right =>
    if relation = width then .ok right
    else slot left width relation
  | .bucket .. | .total .. => .error (.ungroupedRow relation)

/-- A field of a relation's document. -/
def field (relation : Nat) (name : String) (scope : Scope) : Except Rejection Term :=
  match scope with
  | .bucket .. | .total .. => .error (.ungroupedField relation name)
  | .empty => if relation = 0 then .ok (.string name) else .error (.unboundRelation relation)
  | scope => do return (← scope.document relation).bracket name

/-- The records that an aggregate ranges over, with their width. -/
def rows? : Scope → Option (Term × Nat)
  | .bucket group _ width => some (group.bracket "reduction", width)
  | .total rows width => some (rows, width)
  | _ => none

/-- Past grouping, whatever equals a group key is read from the key. -/
def keySlot? (e : Expr) : Scope → Option Term
  | .bucket group keys _ =>
    (keys.findIdx? fun k => k.sameAs e).map fun i => (group.bracket "group").nth i
  | _ => none

end Scope

end DocQuery
