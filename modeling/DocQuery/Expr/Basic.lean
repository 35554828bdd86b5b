import DocQuery.Json.Basic

/-!
# Query expressions

One tree serves every place of a query: filters, join conditions, group keys,
projections, order terms, pagination and update clauses. Relations are named by
position: `0` is the source of the query and `1` onwards are the joined tables
in the order of their joins.
-/

namespace DocQuery

inductive Literal
  | string (s : String)
  | int (n : Int)
  | float (x : Binary64)
  | bool (b : Bool)
  | null

namespace Literal

/-- Equality of values: floats by value, and an integer is never a float. -/
def sameValue : Literal → Literal → Bool
  | .string a, .string b => a == b
  | .int a, .int b => a == b
  | .float x, .float y => x.sameValue y
  | .bool a, .bool b => a == b
  | .null, .null => true
  | _, _ => false

theorem sameValue_refl (l : Literal) : l.sameValue l = true := by
  cases l <;> simp [sameValue, Binary64.sameValue_refl]

/-- A float literal; infinities have no written value. -/
def ofFloat? (x : Binary64) : Option Literal :=
  if x.isFinite then some (.float x) else none

/-- The value that a literal stands for. An infinity built without `ofFloat?`
stands for `null`. -/
def value : Literal → Json
  | .string s => .string s
  | .int n => .int n
  | .float x => if x.isFinite then .float x else .null
  | .bool b => .bool b
  | .null => .null

end Literal

inductive Comparator
  | eq
  | ne
  | lt
  | le
  | gt
  | ge
deriving DecidableEq

inductive ArithmeticOp
  | add
  | sub
  | mul
  | div
deriving DecidableEq

/-- The ways to fold a sequence into one value. -/
inductive AggregateFunc
  | count
  | sum
  | avg
  | min
  | max
deriving DecidableEq

/-- The field operators of an update clause. -/
inductive UpdateOp
  | set
  | increment
  | push
  | pull
deriving DecidableEq

inductive Expr
  | literal (l : Literal)
  /-- A single parameter. -/
  | param (index : Nat)
  /-- A run of parameters, taken as a list. -/
  | paramSlice (start count : Nat)
  | field (relation : Nat) (name : String)
  /-- The whole row of a relation. -/
  | entity (relation : Nat)
  | compare (op : Comparator) (left right : Expr)
  | arith (op : ArithmeticOp) (left right : Expr)
  | and (items : List Expr)
  | or (items : List Expr)
  | not (e : Expr)
  | isIn (e list : Expr)
  | isNull (e : Expr)
  | like (e pattern : Expr) (ignoreCase : Bool)
  | aggregate (func : AggregateFunc) (arg : Expr) (distinct : Bool)
  /-- Sets a field of the stored row; stands only in an update clause. -/
  | update (op : UpdateOp) (field : String) (value : Expr)
  | tuple (items : List Expr)
  | list (items : List Expr)
  | map (entries : List (String × Expr))

namespace Expr

/-- The literal `true`, which as a join condition means "by the declared
association". -/
def isTrivial : Expr → Bool
  | .literal (.bool true) => true
  | _ => false

def isEntity : Expr → Bool
  | .entity _ => true
  | _ => false

def isAggregate : Expr → Bool
  | .aggregate .. => true
  | _ => false

mutual

/-- Whether an aggregate call stands anywhere in the tree. -/
def containsAggregate : Expr → Bool
  | .aggregate .. => true
  | .literal _ | .param _ | .paramSlice .. | .field .. | .entity _ => false
  | .compare _ l r | .arith _ l r => l.containsAggregate || r.containsAggregate
  | .and es | .or es | .tuple es | .list es => anyAggregate es
  | .not e | .isNull e => e.containsAggregate
  | .isIn e l => e.containsAggregate || l.containsAggregate
  | .like e p _ => e.containsAggregate || p.containsAggregate
  | .update _ _ v => v.containsAggregate
  | .map entries => anyEntryAggregate entries

def anyAggregate : List Expr → Bool
  | [] => false
  | e :: rest => e.containsAggregate || anyAggregate rest

def anyEntryAggregate : List (String × Expr) → Bool
  | [] => false
  | (_, e) :: rest => e.containsAggregate || anyEntryAggregate rest

end

mutual

/-- Equality of trees, with literals compared by value. -/
def sameAs : Expr → Expr → Bool
  | .literal a, .literal b => a.sameValue b
  | .param i, .param j => i == j
  | .paramSlice s n, .paramSlice t m => s == t && n == m
  | .field r a, .field s b => r == s && a == b
  | .entity r, .entity s => r == s
  | .compare f a b, .compare g c d => f == g && a.sameAs c && b.sameAs d
  | .arith f a b, .arith g c d => f == g && a.sameAs c && b.sameAs d
  | .and as, .and bs => allSame as bs
  | .or as, .or bs => allSame as bs
  | .not a, .not b => a.sameAs b
  | .isIn a l, .isIn b m => a.sameAs b && l.sameAs m
  | .isNull a, .isNull b => a.sameAs b
  | .like a p c, .like b q d => a.sameAs b && p.sameAs q && c == d
  | .aggregate f a c, .aggregate g b d => f == g && a.sameAs b && c == d
  | .update f a v, .update g b w => f == g && a == b && v.sameAs w
  | .tuple as, .tuple bs => allSame as bs
  | .list as, .list bs => allSame as bs
  | .map as, .map bs => allEntriesSame as bs
  | _, _ => false

def allSame : List Expr → List Expr → Bool
  | [], [] => true
  | a :: as, b :: bs => a.sameAs b && allSame as bs
  | _, _ => false

/-- Entries compare in order, keys included. -/
def allEntriesSame : List (String × Expr) → List (String × Expr) → Bool
  | [], [] => true
  | (k, a) :: as, (l, b) :: bs => k == l && a.sameAs b && allEntriesSame as bs
  | _, _ => false

end

theorem anyAggregate_eq (es : List Expr) : anyAggregate es = es.any containsAggregate := by
  induction es with
  | nil => rfl
  | cons e rest ih => rw [anyAggregate, List.any_cons, ih]

theorem anyEntryAggregate_eq (entries : List (String × Expr)) :
    anyEntryAggregate entries = entries.any fun p => p.2.containsAggregate := by
  induction entries with
  | nil => rfl
  | cons p rest ih => rw [anyEntryAggregate, List.any_cons, ih]

mutual

theorem sameAs_refl : ∀ e : Expr, e.sameAs e = true
  | .literal l => by simp [sameAs, l.sameValue_refl]
  | .param _ | .paramSlice .. | .field .. | .entity _ => by simp [sameAs]
  | .compare _ l r | .arith _ l r | .isIn l r | .like l r _ => by
      simp [sameAs, sameAs_refl l, sameAs_refl r]
  | .not e | .isNull e | .aggregate _ e _ | .update _ _ e => by simp [sameAs, sameAs_refl e]
  | .and es | .or es | .tuple es | .list es => by simp [sameAs, allSame_refl es]
  | .map entries => by simp [sameAs, allEntriesSame_refl entries]

theorem allSame_refl : ∀ es : List Expr, allSame es es = true
  | [] => rfl
  | e :: rest => by simp [allSame, sameAs_refl e, allSame_refl rest]

theorem allEntriesSame_refl :
    ∀ entries : List (String × Expr), allEntriesSame entries entries = true
  | [] => rfl
  | (_, e) :: rest => by simp [allEntriesSame, sameAs_refl e, allEntriesSame_refl rest]

end

theorem isEntity_eq_of_sameAs {a b : Expr} (h : a.sameAs b = true) : a.isEntity = b.isEntity := by
  cases a <;> cases b <;> simp [sameAs, isEntity] at h ⊢

/-- Entities stand in the same places of lists that are the same. -/
theorem map_isEntity_eq_of_allSame {as bs : List Expr} (h : allSame as bs = true) :
    as.map isEntity = bs.map isEntity := by
  induction as generalizing bs with
  | nil =>
    cases bs with
    | nil => rfl
    | cons b bs => simp [allSame] at h
  | cons a as ih =>
    cases bs with
    | nil => simp [allSame] at h
    | cons b bs =>
      rw [allSame, Bool.and_eq_true] at h
      rw [List.map_cons, List.map_cons, isEntity_eq_of_sameAs h.1, ih h.2]

end Expr

end DocQuery
