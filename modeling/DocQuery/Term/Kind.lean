/-!
# Operation kinds

The operations of the store's pipeline protocol and the number that stands for
each on the wire. No two kinds share a number.
-/

namespace DocQuery

namespace Term

inductive Kind
  | datum
  | makeArray
  | makeObject
  | var
  | db
  | table
  | get
  | eq
  | ne
  | lt
  | le
  | gt
  | ge
  | not
  | add
  | sub
  | mul
  | div
  | append
  | map
  | filter
  | concatMap
  | orderBy
  | distinct
  | count
  | nth
  | innerJoin
  | eqJoin
  | update
  | delete
  | insert
  | or
  | and
  | func
  | skip
  | limit
  | asc
  | desc
  | contains
  | difference
  | matchRegex
  | group
  | sum
  | avg
  | min
  | max
  | ungroup
  | bracket
deriving DecidableEq

namespace Kind

/-- The number of an operation on the wire. -/
def code : Kind → Nat
  | .datum => 1
  | .makeArray => 2
  | .makeObject => 3
  | .var => 10
  | .db => 14
  | .table => 15
  | .get => 16
  | .eq => 17
  | .ne => 18
  | .lt => 19
  | .le => 20
  | .gt => 21
  | .ge => 22
  | .not => 23
  | .add => 24
  | .sub => 25
  | .mul => 26
  | .div => 27
  | .append => 29
  | .map => 38
  | .filter => 39
  | .concatMap => 40
  | .orderBy => 41
  | .distinct => 42
  | .count => 43
  | .nth => 45
  | .innerJoin => 48
  | .eqJoin => 50
  | .update => 53
  | .delete => 54
  | .insert => 56
  | .or => 66
  | .and => 67
  | .func => 69
  | .skip => 70
  | .limit => 71
  | .asc => 73
  | .desc => 74
  | .contains => 93
  | .difference => 95
  | .matchRegex => 97
  | .group => 144
  | .sum => 145
  | .avg => 146
  | .min => 147
  | .max => 148
  | .ungroup => 150
  | .bracket => 170

def all : List Kind :=
  [.datum, .makeArray, .makeObject, .var, .db, .table, .get, .eq, .ne, .lt, .le, .gt, .ge,
   .not, .add, .sub, .mul, .div, .append, .map, .filter, .concatMap, .orderBy, .distinct,
   .count, .nth, .innerJoin, .eqJoin, .update, .delete, .insert, .or, .and, .func, .skip,
   .limit, .asc, .desc, .contains, .difference, .matchRegex, .group, .sum, .avg, .min, .max,
   .ungroup, .bracket]

/-- The operation that a number stands for. -/
def ofCode? (n : Nat) : Option Kind := all.find? fun k => k.code == n

theorem ofCode?_code (k : Kind) : ofCode? k.code = some k := by
  cases k <;> rfl

end Kind

end Term

end DocQuery
