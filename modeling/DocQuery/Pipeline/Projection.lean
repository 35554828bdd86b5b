import DocQuery.Pipeline.Basic

/-!
# Projections

Shapes the output of a pipeline. A whole entity is picked out of the record; a
list or tuple puts its entities first, then the preloaded relations, then the
other items; anything else is computed once per element, or once over the whole
sequence when it aggregates without grouping.
-/

namespace DocQuery.Pipeline

/-- A group of records turned back into its records. -/
def flattened (p : Pipeline) : Compile Pipeline := do
  if p.isGrouped then
    let f ← Compile.lambda fun group => return group.bracket "reduction"
    return { p with term := p.term.concatMap f, groupKeys := [] }
  else return p

/-- The rows of one relation. -/
def selectEntity (p : Pipeline) (relation : Nat) : Compile Pipeline := do
  if p.width ≤ relation then throw (.unboundRelation relation)
  let p ← p.flattened
  if p.width = 1 then return p
  else
    let f ← Compile.lambda fun row => return ← Scope.slot row p.width relation
    return p.mapTerm (·.map f)

/-- Lists, tuples and maps give one row of values even over a whole sequence. -/
def isRowShape : Expr → Bool
  | .list _ | .tuple _ | .map _ => true
  | _ => false

/-- The projection computed over the whole sequence. -/
def selectTotal (s : Setting) (p : Pipeline) (shape : Expr) : Compile Pipeline := do
  let value ← shape.compile s.engine s.params (.total p.term p.width)
  if isRowShape shape then return { p with term := .makeArray [value] }
  else return { p with term := value, scalar := true }

def selectShape (s : Setting) (p : Pipeline) (shape : Expr) : Compile Pipeline := do
  if !p.isGrouped && shape.containsAggregate then p.selectTotal s shape
  else
    let f ← p.elementFunc s shape
    return p.mapTerm (·.map f)

/-- The order of output slots: entities, preloaded relations, other items. -/
def slots (items : List Expr) (preloads : List Nat) : List Expr :=
  items.filter Expr.isEntity ++ preloads.map Expr.entity ++ items.filter (!·.isEntity)

def select (s : Setting) (p : Pipeline) (projection : Expr) (preloads : List Nat) :
    Compile Pipeline :=
  match projection with
  | .entity relation =>
    if preloads.isEmpty then p.selectEntity relation
    else p.selectShape s (.list (slots [projection] preloads))
  | .list items | .tuple items => p.selectShape s (.list (slots items preloads))
  | shape => p.selectShape s shape

end DocQuery.Pipeline
