import DocQuery.Expr.Basic

/-!
# Relational queries

A query as the query-building layer hands it over. Clauses take effect in one
fixed order, whatever the order in which they were given: source, joins,
filters, grouping, group filters, order, offset, limit, projection, distinct.
-/

namespace DocQuery

/-- A table to read from, with the name of its schema if it has one. -/
structure Source where
  table : String
  schema : Option String
deriving DecidableEq

/-- A joined table. The literal `true` as condition joins by the declared
association; any other condition is a predicate over the relations so far and
this one. -/
structure Join where
  source : Source
  condition : Expr

inductive Direction
  | ascending
  | descending
deriving DecidableEq

structure OrderTerm where
  direction : Direction
  key : Expr

inductive Distinct
  | off
  | flag (on : Bool)
  /-- Distinct by an expression, which no query may ask for. -/
  | byExpr (e : Expr)

structure Query where
  source : Source
  joins : List Join := []
  filters : List Expr := []
  groupKeys : List Expr := []
  having : List Expr := []
  order : List OrderTerm := []
  offset : Option Expr := none
  limit : Option Expr := none
  projection : Expr := .entity 0
  distinct : Distinct := .off
  /-- Relations whose rows go into the output right after the entities. -/
  preloads : List Nat := []

end DocQuery
