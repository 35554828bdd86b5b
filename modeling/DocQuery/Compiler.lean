import DocQuery.Write

/-!
# Compilers

A configuration, a catalog and a regular expression engine, against which
queries and writes compile. Each compiles on its own: its variables are numbered
from one and nothing is remembered from earlier ones.
-/

namespace DocQuery

structure Compiler where
  config : Config := {}
  catalog : Catalog := {}
  engine : RegexEngine := {}

namespace Compiler

def setting (c : Compiler) (params : Params) : Setting :=
  ⟨c.config, c.catalog, params, c.engine⟩

/-- The compilation of a query, from its first variable on. -/
def query (c : Compiler) (q : Query) (params : Params) : Compile Term := do
  let p ← Pipeline.ofQuery (c.setting params) q
  return p.term

def updateAll (c : Compiler) (q : Query) (params : Params) (updates : List Expr) :
    Compile Term := do
  let scope ← Pipeline.writeScope (c.setting params) q
  (c.setting params).updateAllTerm scope updates

def deleteAll (c : Compiler) (q : Query) (params : Params) : Compile Term := do
  let scope ← Pipeline.writeScope (c.setting params) q
  return (c.setting params).deleteAllTerm scope

def compileQuery (c : Compiler) (q : Query) (params : Params) : Except Rejection Term :=
  (c.query q params).outcome

def compileUpdateAll (c : Compiler) (q : Query) (params : Params) (updates : List Expr) :
    Except Rejection Term :=
  (c.updateAll q params updates).outcome

def compileDeleteAll (c : Compiler) (q : Query) (params : Params) : Except Rejection Term :=
  (c.deleteAll q params).outcome

def compileWrite (c : Compiler) : Write → Except Rejection Term
  | .insert table fields => .ok (c.config.insertTerm table fields)
  | .insertAll table rows => .ok (c.config.insertAllTerm table rows)
  | .update table key fields => .ok (c.config.updateTerm table key fields)
  | .delete table key => .ok (c.config.deleteTerm table key)
  | .updateAll q params updates => c.compileUpdateAll q params updates
  | .deleteAll q params => c.compileDeleteAll q params

end Compiler

end DocQuery
