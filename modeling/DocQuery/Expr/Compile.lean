import DocQuery.Compile
import DocQuery.LikePattern
import DocQuery.Params
import DocQuery.Reduction
import DocQuery.Scope

/-!
# Compiling expressions

Turns an expression into a term against a scope. Operands are compiled in the
order in which they are evaluated here, so the first defect met is the one that
is reported.
-/

namespace DocQuery

def Comparator.kind : Comparator → Term.Kind
  | .eq => .eq
  | .ne => .ne
  | .lt => .lt
  | .le => .le
  | .gt => .gt
  | .ge => .ge

def ArithmeticOp.kind : ArithmeticOp → Term.Kind
  | .add => .add
  | .sub => .sub
  | .mul => .mul
  | .div => .div

namespace Expr

/-- The text of a pattern: a string literal or a parameter that holds a string. -/
def patternText (params : Params) : Expr → Except Rejection String
  | .literal (.string s) => .ok s
  | .param i => do
    match ← params.value i with
    | .string s => .ok s
    | v => .error (.patternNotString i v)
  | e => .error (.patternNotConstant e)

/-- The pattern that an expression stands for. -/
def likePattern (engine : RegexEngine) (params : Params) (ignoreCase : Bool) (e : Expr) :
    Except Rejection LikePattern := do
  LikePattern.compile engine (← e.patternText params) ignoreCase

/-- No terms give the neutral value and one stands for itself. -/
def connective (combine : List Term → Term) (neutral : Bool) : List Term → Term
  | [] => .bool neutral
  | [t] => t
  | ts => combine ts

mutual

/-- The term for an expression in a scope. -/
def compile (engine : RegexEngine) (params : Params) (scope : Scope) (e : Expr) : Compile Term :=
  match scope.keySlot? e with
  | some slot => pure slot
  | none =>
    match e with
    | .literal l => return .datum l.value
    | .param i => do return .datum (← params.value i)
    | .paramSlice start count => do return .datum (.array (← params.slice start count))
    | .field relation name => do return ← scope.field relation name
    | .entity relation => do return ← scope.document relation
    | .compare op l r => do
      let left ← compile engine params scope l
      let right ← compile engine params scope r
      return .binary op.kind left right
    | .arith op l r => do
      let left ← compile engine params scope l
      let right ← compile engine params scope r
      return .binary op.kind left right
    | .and es => do return connective .and true (← compileAll engine params scope es)
    | .or es => do return connective .or false (← compileAll engine params scope es)
    | .not e => do return .not (← compile engine params scope e)
    | .isIn e l => do
      let list ← match l with
        | .param i => do pure (.datum (.array (← params.items i)))
        | _ => compile engine params scope l
      let item ← compile engine params scope e
      return list.contains item
    | .isNull e => do return .binary .eq (← compile engine params scope e) (.datum .null)
    | .like e p ignoreCase => do
      let pattern ← p.likePattern engine params ignoreCase
      let subject ← compile engine params scope e
      return subject.matchRegex pattern.regex
    | .aggregate func arg distinct =>
      match scope.rows? with
      | none => throw (.misplacedAggregate (.aggregate func arg distinct))
      | some (rows, width) =>
        if arg.containsAggregate then throw (.nestedAggregate (.aggregate func arg distinct))
        else if width = 1 ∧ arg.sameAs (.entity 0) then
          return Reduction.apply ⟨func, distinct⟩ rows
        else do
          let f ← Compile.lambda fun row => compile engine params (.row row width) arg
          return Reduction.apply ⟨func, distinct⟩ (rows.map f)
    | .update op name v => throw (.misplacedUpdate (.update op name v))
    | .tuple es => do return .makeArray (← compileAll engine params scope es)
    | .list es => do return .makeArray (← compileAll engine params scope es)
    | .map entries => do return .makeObject (← compileEntries engine params scope entries)

def compileAll (engine : RegexEngine) (params : Params) (scope : Scope) :
    List Expr → Compile (List Term)
  | [] => return []
  | e :: rest => do
    let t ← compile engine params scope e
    let ts ← compileAll engine params scope rest
    return t :: ts

def compileEntries (engine : RegexEngine) (params : Params) (scope : Scope) :
    List (String × Expr) → Compile (List (String × Term))
  | [] => return []
  | (k, e) :: rest => do
    let t ← compile engine params scope e
    let ts ← compileEntries engine params scope rest
    return (k, t) :: ts

end

/-- The new value of a field from its current one. -/
def patched (op : UpdateOp) (current value : Term) : Term :=
  match op with
  | .set => value
  | .increment => .binary .add current value
  | .push => current.append value
  | .pull => current.difference (.makeArray [value])

/-- The patched field of an update clause and its new value, read against the
stored row. -/
def compileUpdate (engine : RegexEngine) (params : Params) (row : Term) :
    Expr → Compile (String × Term)
  | .update op name v => do
    let value ← v.compile engine params (.row row 1)
    return (name, patched op (row.bracket name) value)
  | e => throw (.notUpdate e)

/-- An offset or limit, which has to be a count. -/
def compileCount (engine : RegexEngine) (params : Params) (clause : String) (e : Expr) :
    Compile Term := do
  match ← e.compile engine params .empty with
  | .datum (.number n) =>
    if n.isCount then return .datum (.number n)
    else throw (.notCount clause (.datum (.number n)))
  | t => throw (.notCount clause t)

end Expr

end DocQuery
