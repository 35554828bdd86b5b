import DocQuery.Pipeline.Basic

/-!
# Joins

A join pairs every record so far with documents of one more table and merges
each pair into a record with one slot more. Joining by association needs exactly
one link between the relations so far and the joined schema.
-/

namespace DocQuery

/-- The links that could back an association join: the position of a relation
and a link from its schema to the joined one. -/
def Catalog.candidates (c : Catalog) (relations : List (Option String)) (right : String) :
    List (Nat × Link) :=
  relations.zipIdx.flatMap fun
    | (some left, i) => (c.linksBetween left right).map (i, ·)
    | (none, _) => []

/-- The one link that backs an association join. -/
def Catalog.resolve (c : Catalog) (relations : List (Option String)) (source : Source) :
    Except Rejection (Nat × Link) :=
  match source.schema with
  | none => .error (.joinWithoutSchema source.table)
  | some right =>
    match c.candidates relations right with
    | [] => .error (.noLink source.table right)
    | [only] => .ok only
    | many => .error (.ambiguousLink source.table (many.map (·.2)))

/-- The primary key of the schema of a source, `id` if none is registered. -/
def Catalog.primaryKey (c : Catalog) (source : Source) : String :=
  match source.schema.bind c.find? with
  | some schema => schema.primaryKey
  | none => "id"

theorem Catalog.primaryKey_of_registered {c : Catalog} {source : Source} {schema : Schema}
    (h : source.schema.bind c.find? = some schema) : c.primaryKey source = schema.primaryKey := by
  rw [primaryKey, h]

theorem Catalog.primaryKey_of_unregistered {c : Catalog} {source : Source}
    (h : source.schema.bind c.find? = none) : c.primaryKey source = "id" := by
  rw [primaryKey, h]

namespace Pipeline

/-- Merges the two halves of a joined pair into one record. -/
def merge (width : Nat) (pair : Term) : Term :=
  let left := pair.bracket "left"
  let right := pair.bracket "right"
  if width = 1 then .makeArray [left, right] else left.append right

/-- Pairs by the declared association. The store looks the right side up by its
primary key unless an index is named. -/
def pairByLink (s : Setting) (p : Pipeline) (source : Source) : Compile Term := do
  let (relation, link) ← s.catalog.resolve p.relations source
  let leftKey ← Compile.lambda fun row =>
    return (← Scope.slot row p.width relation).bracket link.leftKey
  let joined := p.term.eqJoin leftKey (.table s.config.database source.table)
  if link.rightKey = s.catalog.primaryKey source then return joined
  else return joined.withOptarg "index" (.string link.rightKey)

/-- Pairs by a predicate over both sides. -/
def pairByPredicate (s : Setting) (p : Pipeline) (j : Join) : Compile Term := do
  let predicate ← Compile.lambda₂ fun left right =>
    j.condition.compile s.engine s.params (.pair left p.width right)
  return p.term.innerJoin (.table s.config.database j.source.table) predicate

def join (s : Setting) (p : Pipeline) (j : Join) : Compile Pipeline := do
  let paired ← if j.condition.isTrivial then p.pairByLink s j.source else p.pairByPredicate s j
  let f ← Compile.lambda fun pair => return merge p.width pair
  return { p with term := paired.map f, relations := p.relations ++ [j.source.schema] }

def joins (s : Setting) (p : Pipeline) (js : List Join) : Compile Pipeline :=
  js.foldlM (join s) p

end Pipeline

end DocQuery
