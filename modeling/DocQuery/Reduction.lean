import DocQuery.Rejection

/-!
# Reductions

How an aggregate call folds a sequence into one value. The store has no
aggregate over distinct values, so these are two operations in a row.
-/

namespace DocQuery

structure Reduction where
  func : AggregateFunc
  distinct : Bool
deriving DecidableEq

namespace Reduction

def apply (r : Reduction) (seq : Term) : Term :=
  let seq := if r.distinct then seq.distinct else seq
  match r.func with
  | .count => seq.count
  | .sum => seq.sum
  | .avg => seq.avg
  | .min => seq.min
  | .max => seq.max

end Reduction

/-- The argument and the reduction of an aggregate call, or nothing for another
expression. Aggregates do not nest. -/
def Expr.reduction? : Expr → Except Rejection (Option (Expr × Reduction))
  | .aggregate func arg distinct =>
    if arg.containsAggregate then .error (.nestedAggregate (.aggregate func arg distinct))
    else .ok (some (arg, ⟨func, distinct⟩))
  | _ => .ok none

end DocQuery
