import DocQuery.Config.Basic
import DocQuery.Expr.Compile

/-!
# Pipelines

The term of a query under construction, with what the later clauses need to
know about its elements. Every clause is one step from a pipeline to the next.
-/

namespace DocQuery

/-- What a query is compiled against. -/
structure Setting where
  config : Config := {}
  catalog : Catalog := {}
  params : Params := []
  engine : RegexEngine := {}

structure Pipeline where
  term : Term
  /-- The schema of every relation; their number is the width of a record. -/
  relations : List (Option String)
  /-- Once there are keys, the elements are groups of records. -/
  groupKeys : List Expr := []
  /-- The term yields one value and not a sequence. -/
  scalar : Bool := false

namespace Pipeline

def width (p : Pipeline) : Nat := p.relations.length

def isGrouped (p : Pipeline) : Bool := !p.groupKeys.isEmpty

/-- The scope of a variable that ranges over the elements. -/
def elementScope (p : Pipeline) (element : Term) : Scope :=
  if p.isGrouped then .bucket element p.groupKeys p.width else .row element p.width

def mapTerm (f : Term → Term) (p : Pipeline) : Pipeline := { p with term := f p.term }

/-- An expression as a function of one element. -/
def elementFunc (s : Setting) (p : Pipeline) (e : Expr) : Compile Term :=
  Compile.lambda fun element => e.compile s.engine s.params (p.elementScope element)

/-- The pipeline that reads one table. -/
def ofSource (s : Setting) (source : Source) : Pipeline :=
  { term := .table s.config.database source.table, relations := [source.schema] }

end Pipeline

end DocQuery
