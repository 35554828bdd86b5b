import DocQuery.LikePattern
import DocQuery.Params
import DocQuery.Store.Basic

/-!
# What expressions mean

The value of an expression without aggregates over the documents of one row,
said without a term. `none` means that the store stops with an error or that a
parameter or document is not there.
-/

namespace DocQuery

/-- Whether two values with this order compare as asked for. -/
def Comparator.holds : Comparator → Ordering → Bool
  | .eq => Ordering.isEq
  | .ne => Ordering.isNe
  | .lt => Ordering.isLT
  | .le => Ordering.isLE
  | .gt => Ordering.isGT
  | .ge => Ordering.isGE

def ArithmeticOp.result : ArithmeticOp → Binary64 → Binary64 → Json
  | .add => Json.add
  | .sub => Json.sub
  | .mul => Json.mul
  | .div => Json.div

namespace Expr

/-- Values under a connective: the neutral one if there are none, a single
one as it is, else a truth value. -/
def connected (neutral : Bool) (connect : List (Option Json) → Option Json) :
    List (Option Json) → Option Json
  | [] => some (.bool neutral)
  | [v] => v
  | vs => connect vs

/-- The string of a pattern. -/
def pattern? (params : Params) : Expr → Option String
  | .literal (.string s) => some s
  | .param i => params[i]?.bind Json.string?
  | _ => none

section

variable (store : Store) (params : Params) (document : Nat → Option Json)

mutual

/-- The value over a row, given by the documents of its relations. -/
def value : Expr → Option Json
  | .literal l => some l.value
  | .param i => params[i]?
  | .paramSlice start count =>
    if start + count ≤ params.length then some (.array ((params.drop start).take count))
    else none
  | .field r name => (document r).map (·.fieldOrNull name)
  | .entity r => document r
  | .compare op l r => store.test op.holds l.value r.value
  | .arith op l r => Store.calculate op.result l.value r.value
  | .and es => connected true Store.all (values es)
  | .or es => connected false Store.any (values es)
  | .not e => do return .bool !(← e.value).isTrue
  | .isIn e l => do
    let items ← (← l.value).items?
    let item ← e.value
    return .bool (items.any fun v => v.sameValue item)
  | .isNull e => store.test Ordering.isEq e.value (some .null)
  | .like e p ignoreCase => do
    let subject ← e.value
    let pattern ← p.pattern? params
    let found ← store.search? (LikePattern.read pattern ignoreCase).regex
    return .bool (subject.string?.any found)
  | .aggregate .. | .update .. => none
  | .tuple es | .list es => do return .array (← (values es).mapM id)
  | .map entries => do return .object (Entries.ofPairs (← entryValues entries))

def values : List Expr → List (Option Json)
  | [] => []
  | e :: rest => e.value :: values rest

def entryValues : List (String × Expr) → Option (List (String × Json))
  | [] => some []
  | (k, e) :: rest => do
    let v ← e.value
    let vs ← entryValues rest
    return (k, v) :: vs

end

end

end Expr

end DocQuery
