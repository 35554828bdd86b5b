import DocQuery.Json.Basic
import DocQuery.Term.Kind

/-!
# Pipeline terms

The tree that a query compiles to and the store runs: data, variables,
functions and operations with arguments and optional arguments. Optional
arguments are a list of attachments; looking one up finds the first.
-/

namespace DocQuery

inductive Term
  | datum (value : Json)
  | makeArray (items : List Term)
  | makeObject (entries : List (String × Term))
  | var (id : Nat)
  | func (params : List Nat) (body : Term)
  | op (kind : Term.Kind) (args : List Term) (optargs : List (String × Term))

namespace Term

def kind : Term → Kind
  | .datum _ => .datum
  | .makeArray _ => .makeArray
  | .makeObject _ => .makeObject
  | .var _ => .var
  | .func .. => .func
  | .op k .. => k

/-- The arguments of an operation or the items of an array. -/
def args : Term → List Term
  | .op _ as _ => as
  | .makeArray items => items
  | _ => []

/-- An optional argument by its key. -/
def optarg? (key : String) : Term → Option Term
  | .op _ _ os => Entries.get? key os
  | _ => none

/-- Attaches an optional argument to an operation; other terms stay as they are. -/
def withOptarg (t : Term) (key : String) (value : Term) : Term :=
  match t with
  | .op k as os => .op k as (os ++ [(key, value)])
  | t => t

/-- An operation without optional arguments. -/
def call (k : Kind) (args : List Term) : Term := .op k args []

def string (s : String) : Term := .datum (.string s)

def bool (b : Bool) : Term := .datum (.bool b)

def nat (n : Nat) : Term := .datum (.int n)

/-! ## Sources -/

def table (db : Option String) (name : String) : Term :=
  match db with
  | some db => call .table [call .db [string db], string name]
  | none => call .table [string name]

def get (t key : Term) : Term := call .get [t, key]

/-! ## Access to documents -/

def bracket (t : Term) (field : String) : Term := call .bracket [t, string field]

def nth (t : Term) (index : Nat) : Term := call .nth [t, nat index]

def append (t item : Term) : Term := call .append [t, item]

def difference (t items : Term) : Term := call .difference [t, items]

def contains (t item : Term) : Term := call .contains [t, item]

def matchRegex (t : Term) (regex : String) : Term := call .matchRegex [t, string regex]

/-! ## Transformations of sequences -/

def filter (t predicate : Term) : Term := call .filter [t, predicate]

def map (t f : Term) : Term := call .map [t, f]

def concatMap (t f : Term) : Term := call .concatMap [t, f]

def orderBy (t : Term) (keys : List Term) : Term := call .orderBy (t :: keys)

def asc (key : Term) : Term := call .asc [key]

def desc (key : Term) : Term := call .desc [key]

def skip (t n : Term) : Term := call .skip [t, n]

def limit (t n : Term) : Term := call .limit [t, n]

def distinct (t : Term) : Term := call .distinct [t]

def group (t f : Term) : Term := call .group [t, f]

def ungroup (t : Term) : Term := call .ungroup [t]

def eqJoin (t leftKey right : Term) : Term := call .eqJoin [t, leftKey, right]

def innerJoin (t right predicate : Term) : Term := call .innerJoin [t, right, predicate]

/-! ## Reductions -/

def count (t : Term) : Term := call .count [t]

def sum (t : Term) : Term := call .sum [t]

def avg (t : Term) : Term := call .avg [t]

def min (t : Term) : Term := call .min [t]

def max (t : Term) : Term := call .max [t]

/-! ## Writes -/

def insert (t docs : Term) : Term := call .insert [t, docs]

def update (t patch : Term) : Term := call .update [t, patch]

def delete (t : Term) : Term := call .delete [t]

/-! ## Predicates -/

def binary (k : Kind) (left right : Term) : Term := call k [left, right]

def and (ts : List Term) : Term := call .and ts

def or (ts : List Term) : Term := call .or ts

def not (t : Term) : Term := call .not [t]

/-! ## Equality -/

mutual

/-- Equality of trees. Data compare by value; objects built by a term and
optional arguments compare in order. -/
def sameAs : Term → Term → Bool
  | .datum a, .datum b => a.sameValue b
  | .makeArray as, .makeArray bs => allSame as bs
  | .makeObject as, .makeObject bs => allEntriesSame as bs
  | .var i, .var j => i == j
  | .func ps a, .func qs b => ps == qs && a.sameAs b
  | .op k as os, .op l bs qs => k == l && allSame as bs && allEntriesSame os qs
  | _, _ => false

def allSame : List Term → List Term → Bool
  | [], [] => true
  | a :: as, b :: bs => a.sameAs b && allSame as bs
  | _, _ => false

def allEntriesSame : List (String × Term) → List (String × Term) → Bool
  | [], [] => true
  | (k, a) :: as, (l, b) :: bs => k == l && a.sameAs b && allEntriesSame as bs
  | _, _ => false

end

end Term

end DocQuery
