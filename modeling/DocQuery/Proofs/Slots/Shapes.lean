import DocQuery.Term.Basic
import Mathlib.Data.List.Basic

/-!
# Shapes of elements and reads of variables

What a function may read depends on the sequence that it is run on. `shape?`
works out the shape of a sequence and of its elements from the term alone;
`reads` lists every occurrence of a variable with the accesses around it.
`SlotSafe` puts them together: every function stands where the elements have a
known shape and reads nothing that this shape does not have.
-/

namespace DocQuery

namespace Term

/-- What a value of a pipeline looks like. -/
inductive Shape
  /-- A document of one table. -/
  | document
  /-- A record of joined documents, one slot for each. -/
  | record (slots : Nat)
  /-- The halves of a joined pair: a row of `width` relations and a document. -/
  | pair (width : Nat)
  /-- A group of rows of `width` relations with an array of key values. -/
  | group (keys width : Nat)
  | sequence (element : Shape)
deriving DecidableEq

namespace Shape

/-- A row of one relation is its document. -/
def row (width : Nat) : Shape := if width = 1 then .document else .record width

/-- The number of relations in a row. -/
def width? : Shape → Option Nat
  | .document => some 1
  | .record slots => some slots
  | _ => none

/-- The shape of the elements of a sequence. -/
def element? : Shape → Option Shape
  | .sequence element => some element
  | _ => none

/-- The pairs of a join of rows with documents. -/
def joined? (left right : Option Shape) : Option Shape :=
  match left, right with
  | some (.sequence element), some (.sequence .document) =>
    element.width?.map fun width => .sequence (.pair width)
  | _, _ => none

/-- The groups of rows by `keys` values. -/
def grouped? (keys : Nat) : Option Shape → Option Shape
  | some (.sequence element) => element.width?.map fun width => .sequence (.group keys width)
  | _ => none

/-- The shape of a field that has one. -/
def field? (name : String) : Shape → Option Shape
  | .pair width => if name = "left" then some (row width)
      else if name = "right" then some .document else none
  | .group _ width => if name = "reduction" then some (.sequence (row width)) else none
  | _ => none

end Shape

/-- A step from a value into it. A position that is not a literal has no number,
and neither has a field that is not named by a literal a name. -/
inductive Access
  | nth (index : Option Nat)
  | field (name : Option String)
deriving DecidableEq

/-- What may be done with a variable that has a shape: the accesses around it,
the innermost first. No element of a pipeline is itself a sequence. -/
def Shape.Allows : Shape → List Access → Prop
  | .document, path => ∀ index, path.head? ≠ some (.nth index)
  | .record slots, path => ∃ i < slots, path.head? = some (.nth (some i))
  | .pair _, path =>
    path.head? = some (.field (some "left")) ∨ path.head? = some (.field (some "right"))
  | .group keys _, path =>
    (∃ j < keys, path.take 2 = [.field (some "group"), .nth (some j)]) ∨
      path.head? = some (.field (some "reduction"))
  | .sequence _, _ => False

/-- The accesses around the first argument of an operation whose other arguments
are `rest`. -/
def accesses (above : List Access) : Kind → List Term → List Access
  | .nth, [.datum (.number (.int (.ofNat i)))] => .nth (some i) :: above
  | .nth, _ => .nth none :: above
  | .bracket, [.datum (.string name)] => .field (some name) :: above
  | .bracket, _ => .field none :: above
  | _, _ => []

mutual

/-- Every occurrence of a variable, with the accesses around it when the term
itself stands under `above`. -/
def reads (above : List Access) : Term → List (Nat × List Access)
  | .datum _ => []
  | .var id => [(id, above)]
  | .makeArray items => readsAll items
  | .makeObject entries => readsEntries entries
  | .func _ body => body.reads []
  | .op _ [] optargs => readsEntries optargs
  | .op k (t :: rest) optargs =>
    t.reads (accesses above k rest) ++ readsAll rest ++ readsEntries optargs

def readsAll : List Term → List (Nat × List Access)
  | [] => []
  | t :: rest => t.reads [] ++ readsAll rest

def readsEntries : List (String × Term) → List (Nat × List Access)
  | [] => []
  | (_, t) :: rest => t.reads [] ++ readsEntries rest

end

/-- The shape of a value, where the shapes of some variables are known: rows are
read from tables, paired by joins and put together by the function that is
mapped over the pairs; groups are made by an array of keys. -/
def shape? (sight : List (Nat × Shape)) : Term → Option Shape
  | .var id => sight.lookup id
  | .makeArray [left, right] =>
    match left.shape? sight, right.shape? sight with
    | some .document, some .document => some (.record 2)
    | _, _ => none
  | .op .append [left, right] _ =>
    match left.shape? sight, right.shape? sight with
    | some (.record slots), some .document => some (.record (slots + 1))
    | _, _ => none
  | .op .bracket [t, .datum (.string name)] _ => (t.shape? sight).bind (Shape.field? name)
  | .op .table _ _ => some (.sequence .document)
  | .op .filter (t :: _) _ | .op .orderBy (t :: _) _ | .op .skip (t :: _) _
  | .op .limit (t :: _) _ | .op .distinct (t :: _) _ => t.shape? sight
  | .op .eqJoin [left, _, right] _ | .op .innerJoin [left, right, _] _ =>
    Shape.joined? (left.shape? sight) (right.shape? sight)
  | .op .ungroup [.op .group [t, .func _ (.makeArray keys)] _] _ =>
    Shape.grouped? keys.length (t.shape? sight)
  | .op .map [t, .func [id] body] _ =>
    match t.shape? sight with
    | some (.sequence element) => (body.shape? ((id, element) :: sight)).map .sequence
    | _ => none
  | .op .concatMap [t, .func [id] body] _ =>
    match t.shape? sight with
    | some (.sequence element) => body.shape? ((id, element) :: sight)
    | _ => none
  | _ => none

/-- The shape of the elements of a sequence. -/
def elements (sight : List (Nat × Shape)) (t : Term) : List Shape :=
  ((t.shape? sight).bind Shape.element?).toList

/-- The elements that an operation runs its functions on. -/
def operandShapes (sight : List (Nat × Shape)) : Kind → List Term → List Shape
  | .innerJoin, left :: right :: _ => left.elements sight ++ right.elements sight
  | .map, t :: _ | .filter, t :: _ | .concatMap, t :: _ | .group, t :: _ | .orderBy, t :: _
  | .eqJoin, t :: _ => t.elements sight
  | _, _ => []

/-- What a function among the arguments of an operation ranges over. The
function of an order key ranges over what is ordered around it. -/
def ranges (sight : List (Nat × Shape)) (around : List Shape) (k : Kind) (args : List Term) :
    List Shape :=
  if k = .asc ∨ k = .desc then around else operandShapes sight k args

/-- Every function stands where it ranges over elements of known shapes, one for
each of its variables, and reads each variable as its shape allows. -/
inductive SlotSafe : List (Nat × Shape) → List Shape → Term → Prop
  | datum {sight : List (Nat × Shape)} {around : List Shape} (v : Json) :
      SlotSafe sight around (.datum v)
  | makeArray {sight : List (Nat × Shape)} {around : List Shape} {ts : List Term}
      (items : ∀ t ∈ ts, SlotSafe sight [] t) : SlotSafe sight around (.makeArray ts)
  | makeObject {sight : List (Nat × Shape)} {around : List Shape} {es : List (String × Term)}
      (entries : ∀ e ∈ es, SlotSafe sight [] e.2) : SlotSafe sight around (.makeObject es)
  | var {sight : List (Nat × Shape)} {around : List Shape} (id : Nat) :
      SlotSafe sight around (.var id)
  | func {sight : List (Nat × Shape)} {around : List Shape} {ps : List Nat} {body : Term}
      (ranged : around ≠ []) (arity : ps.length = around.length)
      (allowed : ∀ b ∈ ps.zip around, ∀ path, (b.1, path) ∈ body.reads [] → b.2.Allows path)
      (body_safe : SlotSafe (ps.zip around ++ sight) [] body) :
      SlotSafe sight around (.func ps body)
  | op {sight : List (Nat × Shape)} {around : List Shape} {k : Kind} {ts : List Term}
      {os : List (String × Term)} (args : ∀ t ∈ ts, SlotSafe sight (ranges sight around k ts) t)
      (optargs : ∀ o ∈ os, SlotSafe sight [] o.2) : SlotSafe sight around (.op k ts os)

theorem readsAll_eq_flatMap (ts : List Term) : readsAll ts = ts.flatMap (reads []) := by
  induction ts with
  | nil => rfl
  | cons t rest ih => rw [readsAll, List.flatMap_cons, ih]

theorem readsEntries_eq_flatMap (es : List (String × Term)) :
    readsEntries es = (es.map (·.2)).flatMap (reads []) := by
  induction es with
  | nil => rfl
  | cons e rest ih => rw [readsEntries, List.map_cons, List.flatMap_cons, ih]

@[simp] theorem reads_nth (above : List Access) (t : Term) (i : Nat) :
    (t.nth i).reads above = t.reads (.nth (some i) :: above) := by
  show t.reads _ ++ _ ++ _ = _
  simp [readsAll, readsEntries, nat, Json.int, accesses, reads]

@[simp] theorem reads_bracket (above : List Access) (t : Term) (name : String) :
    (t.bracket name).reads above = t.reads (.field (some name) :: above) := by
  show t.reads _ ++ _ ++ _ = _
  simp [readsAll, readsEntries, string, accesses, reads]

/-- What is safe where no function may stand is safe where one may. -/
theorem SlotSafe.around {sight : List (Nat × Shape)} {t : Term} (h : t.SlotSafe sight [])
    (around : List Shape) : t.SlotSafe sight around := by
  generalize hnone : [] = none' at h
  induction h with
  | datum v => exact .datum v
  | makeArray items => exact .makeArray items
  | makeObject entries => exact .makeObject entries
  | var id => exact .var id
  | func ranged => exact absurd hnone.symm ranged
  | @op sight around' k ts os args optargs ih =>
      subst hnone
      refine .op (fun t ht => ?_) optargs
      by_cases hk : k = .asc ∨ k = .desc
      · rw [ranges, if_pos hk]
        exact ih t ht (if_pos hk).symm
      · have h := args t ht
        rw [ranges, if_neg hk] at h ⊢
        exact h

end Term

end DocQuery
