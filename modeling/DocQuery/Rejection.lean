import DocQuery.Expr.Text
import DocQuery.Schema.Link
import DocQuery.Term.Wire

/-!
# Rejections

Why a query or a write cannot be compiled. Every cause is a defect of the query,
its parameters or the schemas, or a pattern that the engine refuses, so the same
input is rejected the same way again.
-/

namespace DocQuery

inductive Rejection
  /-- The rows are to be distinct by an expression. -/
  | distinctByExpr (e : Expr)
  /-- An association join to a table without a schema. -/
  | joinWithoutSchema (table : String)
  /-- No association links the schema to the relations so far. -/
  | noLink (table schema : String)
  /-- More than one link could back the join. -/
  | ambiguousLink (table : String) (candidates : List Link)
  | parameterMissing (index supplied : Nat)
  | sliceOverflow (start count : Nat)
  | sliceMissing (start stop supplied : Nat)
  /-- A parameter used as a list holds something else. -/
  | parameterNotList (index : Nat) (value : Json)
  /-- A field past grouping that is neither a key nor aggregated. -/
  | ungroupedField (relation : Nat) (name : String)
  | ungroupedRow (relation : Nat)
  | nestedAggregate (e : Expr)
  | misplacedAggregate (e : Expr)
  | misplacedUpdate (e : Expr)
  | havingWithoutGroups
  | unboundRelation (index : Nat)
  | patternNotString (index : Nat) (value : Json)
  | patternNotConstant (e : Expr)
  /-- The engine does not take the regular expression of a pattern. -/
  | patternRefused (reason : String)
  /-- An offset or limit that is not a count. -/
  | notCount (clause : String) (got : Term)
  | noUpdates
  | notUpdate (e : Expr)
  | fieldUpdatedTwice (name : String)
  /-- A clause that has no meaning for a write. -/
  | clauseInWrite (clause : String)

namespace Rejection

def ungrouped (what : String) : String :=
  what ++ " must appear in group_by or be used in an aggregate"

def message : Rejection → String
  | .distinctByExpr e =>
    "distinct on expression " ++ e.text ++ " is not supported; group_by the expression instead"
  | .joinWithoutSchema table =>
    "cannot join " ++ table ++ " by association: the joined source has no schema"
  | .noLink table schema =>
    "cannot join " ++ table ++ " by association: no association links " ++ schema ++
      " to the joined schemas"
  | .ambiguousLink table candidates =>
    "join with " ++ table ++ " is ambiguous, candidate keys: " ++
      String.intercalate ", " (candidates.map fun l =>
        l.left ++ "." ++ l.leftKey ++ " = " ++ l.right ++ "." ++ l.rightKey) ++
      "; give an explicit join condition"
  | .parameterMissing index supplied =>
    "malformed parameter reference: parameter " ++ toString index ++ " requested but only " ++
      toString supplied ++ " supplied"
  | .sliceOverflow start count =>
    "malformed parameter reference: slice " ++ toString start ++ "+" ++ toString count ++
      " overflows"
  | .sliceMissing start stop supplied =>
    "malformed parameter reference: slice " ++ toString start ++ ".." ++ toString stop ++
      " requested but only " ++ toString supplied ++ " supplied"
  | .parameterNotList index value =>
    "malformed parameter reference: parameter " ++ toString index ++
      " is pinned as a list but holds " ++ value.text
  | .ungroupedField relation name => ungrouped ("$" ++ toString relation ++ "." ++ name)
  | .ungroupedRow relation => ungrouped ("whole row of relation " ++ toString relation)
  | .nestedAggregate e => "unrecognized expression: nested aggregate in " ++ e.text
  | .misplacedAggregate e =>
    "unrecognized expression: aggregate " ++ e.text ++
      " outside of a grouped or aggregated projection"
  | .misplacedUpdate e =>
    "unrecognized expression: " ++ e.text ++ " is only valid in an update clause"
  | .havingWithoutGroups => "unrecognized expression: having requires group_by"
  | .unboundRelation index =>
    "relation index " ++ toString index ++ " is not bound in this query"
  | .patternNotString index value =>
    "invalid like pattern: parameter " ++ toString index ++ " holds " ++ value.text ++
      ", expected a string"
  | .patternNotConstant e =>
    "invalid like pattern: " ++ e.text ++ " is not a string literal or parameter"
  | .patternRefused reason => "invalid like pattern: " ++ reason
  | .notCount clause got =>
    "invalid offset/limit: " ++ clause ++ " must be a non-negative integer, got " ++ got.text
  | .noUpdates => "unsupported mutation: update_all needs at least one field operator"
  | .notUpdate e => "unsupported mutation: " ++ e.text ++ " is not a field operator"
  | .fieldUpdatedTwice name =>
    "unsupported mutation: field " ++ name ++ " is targeted by more than one operator"
  | .clauseInWrite clause =>
    "unsupported mutation: " ++ clause ++ " is not allowed in update_all/delete_all"

end Rejection

end DocQuery
