import DocQuery.Pipeline.Join
import DocQuery.Pipeline.Projection

/-!
# From queries to pipelines

The clauses of a query in their fixed order, each of which changes nothing when
it is absent.
-/

namespace DocQuery.Pipeline

/-- Keeps the elements for which all conditions hold. -/
def filterAll (s : Setting) (p : Pipeline) (conditions : List Expr) : Compile Pipeline := do
  if conditions.isEmpty then return p
  else
    let f ← p.elementFunc s (.and conditions)
    return p.mapTerm (·.filter f)

/-- Groups by an array of keys, so that a key is read by its position. -/
def groupBy (s : Setting) (p : Pipeline) (keys : List Expr) : Compile Pipeline := do
  if keys.isEmpty then return p
  else
    let f ← p.elementFunc s (.list keys)
    return { p with term := (p.term.group f).ungroup, groupKeys := keys }

def having (s : Setting) (p : Pipeline) (conditions : List Expr) : Compile Pipeline := do
  if conditions.isEmpty then return p
  else if !p.isGrouped then throw .havingWithoutGroups
  else p.filterAll s conditions

def orderKey (s : Setting) (p : Pipeline) (o : OrderTerm) : Compile Term := do
  let f ← p.elementFunc s o.key
  match o.direction with
  | .ascending => return .asc f
  | .descending => return .desc f

def orderBy (s : Setting) (p : Pipeline) (order : List OrderTerm) : Compile Pipeline := do
  if order.isEmpty then return p
  else
    let keys ← order.mapM (p.orderKey s)
    return p.mapTerm (·.orderBy keys)

/-- A clause that puts an operation with a count around the term. -/
def counted (s : Setting) (p : Pipeline) (clause : String) (op : Term → Term → Term) :
    Option Expr → Compile Pipeline
  | none => return p
  | some e => do
    let n ← e.compileCount s.engine s.params clause
    return p.mapTerm fun t => op t n

def offset (s : Setting) (p : Pipeline) : Option Expr → Compile Pipeline :=
  p.counted s "offset" .skip

def limit (s : Setting) (p : Pipeline) : Option Expr → Compile Pipeline :=
  p.counted s "limit" .limit

/-- Removes repeated output rows; a single value has none. -/
def distinct (p : Pipeline) : Distinct → Compile Pipeline
  | .off | .flag false => return p
  | .flag true => if p.scalar then return p else return p.mapTerm .distinct
  | .byExpr e => throw (.distinctByExpr e)

/-- The pipeline of a query. Distinct by an expression is refused before
anything else is looked at. -/
def ofQuery (s : Setting) (q : Query) : Compile Pipeline := do
  if let .byExpr e := q.distinct then throw (.distinctByExpr e)
  let p := ofSource s q.source
  let p ← p.joins s q.joins
  let p ← p.filterAll s q.filters
  let p ← p.groupBy s q.groupKeys
  let p ← p.having s q.having
  let p ← p.orderBy s q.order
  let p ← p.offset s q.offset
  let p ← p.limit s q.limit
  let p ← p.select s q.projection q.preloads
  p.distinct q.distinct

/-- The first clause that a write over a query may not have. -/
def clauseNotForWrites? (q : Query) : Option String :=
  if !q.joins.isEmpty then some "join"
  else if !q.groupKeys.isEmpty then some "group_by"
  else if !q.having.isEmpty then some "having"
  else if !q.order.isEmpty then some "order_by"
  else if q.offset.isSome then some "offset"
  else if q.limit.isSome then some "limit"
  else none

/-- The rows that a write over a query touches: the source under its filters. -/
def writeScope (s : Setting) (q : Query) : Compile Pipeline := do
  match clauseNotForWrites? q with
  | some clause => throw (.clauseInWrite clause)
  | none => (ofSource s q.source).filterAll s q.filters

end DocQuery.Pipeline
