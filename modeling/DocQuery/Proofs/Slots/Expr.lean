import DocQuery.Proofs.Acceptance.Expr
import DocQuery.Proofs.Slots.Shapes

/-!
# Reads of compiled expressions

An expression reads the variables of its scope as their shapes allow, and the
functions that it brings along for aggregates are slot-safe.
-/

namespace DocQuery

namespace Term

/-- Neither looks into its first argument nor takes a function. -/
def Kind.isFlat : Kind → Bool
  | .nth | .bracket | .asc | .desc | .map | .filter | .concatMap | .group | .orderBy | .eqJoin
  | .innerJoin => false
  | _ => true

theorem accesses_of_isFlat {k : Kind} (hk : k.isFlat) (above : List Access) (rest : List Term) :
    accesses above k rest = [] := by
  cases k <;> first | rfl | exact absurd hk Bool.false_ne_true

theorem ranges_of_isFlat {k : Kind} (hk : k.isFlat) (sight : List (Nat × Shape))
    (around : List Shape) (ts : List Term) : ranges sight around k ts = [] := by
  cases k <;> first | rfl | exact absurd hk Bool.false_ne_true

theorem reads_op_of_isFlat {k : Kind} (hk : k.isFlat) (above : List Access) (ts : List Term)
    (os : List (String × Term)) :
    (op k ts os).reads above = ts.flatMap (reads []) ++ (os.map (·.2)).flatMap (reads []) := by
  cases ts with
  | nil => rw [reads, readsEntries_eq_flatMap]; rfl
  | cons t rest =>
      rw [reads, accesses_of_isFlat hk, readsAll_eq_flatMap, readsEntries_eq_flatMap,
        List.flatMap_cons]

/-- Reads what is in sight as its shapes allow, and is slot-safe itself. -/
structure FitsSight (sight : List (Nat × Shape)) (t : Term) : Prop where
  safe : t.SlotSafe sight []
  allowed : ∀ id path, (id, path) ∈ t.reads [] →
    ∀ shape, sight.lookup id = some shape → shape.Allows path

variable {sight : List (Nat × Shape)} {t body : Term} {n : Nat} {shape : Shape}

@[simp] theorem fitsSight_datum (v : Json) : (datum v).FitsSight sight :=
  ⟨.datum v, by simp [reads]⟩

theorem FitsSight.flatMap {ts : List Term} (h : ∀ t ∈ ts, t.FitsSight sight) (id : Nat)
    (path : List Access) (hmem : (id, path) ∈ ts.flatMap (reads [])) :
    ∀ shape, sight.lookup id = some shape → shape.Allows path := by
  obtain ⟨t, ht, hread⟩ := List.mem_flatMap.mp hmem
  exact (h t ht).allowed id path hread

theorem fitsSight_makeArray {ts : List Term} (h : ∀ t ∈ ts, t.FitsSight sight) :
    (makeArray ts).FitsSight sight := by
  refine ⟨.makeArray fun t ht => (h t ht).safe, ?_⟩
  rw [reads, readsAll_eq_flatMap]
  exact FitsSight.flatMap h

theorem fitsSight_makeObject {es : List (String × Term)} (h : ∀ e ∈ es, e.2.FitsSight sight) :
    (makeObject es).FitsSight sight := by
  refine ⟨.makeObject fun e he => (h e he).safe, ?_⟩
  rw [reads, readsEntries_eq_flatMap]
  refine FitsSight.flatMap fun t ht => ?_
  obtain ⟨e, he, rfl⟩ := List.mem_map.mp ht
  exact h e he

theorem fitsSight_op {k : Kind} (hk : k.isFlat) {ts : List Term} {os : List (String × Term)}
    (hts : ∀ t ∈ ts, t.FitsSight sight) (hos : ∀ o ∈ os, o.2.FitsSight sight) :
    (op k ts os).FitsSight sight := by
  refine ⟨.op (fun t ht => ?_) fun o ho => (hos o ho).safe, ?_⟩
  · rw [ranges_of_isFlat hk]
    exact (hts t ht).safe
  · rw [reads_op_of_isFlat hk, ← List.flatMap_append]
    refine FitsSight.flatMap (List.forall_mem_append.mpr ⟨hts, fun t ht => ?_⟩)
    obtain ⟨o, ho, rfl⟩ := List.mem_map.mp ht
    exact hos o ho

theorem fitsSight_call {k : Kind} (hk : k.isFlat) {ts : List Term}
    (hts : ∀ t ∈ ts, t.FitsSight sight) : (call k ts).FitsSight sight :=
  fitsSight_op hk hts (by simp)

/-! ## Functions of one element -/

theorem FitsSight.func (h : body.FitsSight ((n, shape) :: sight)) :
    (Term.func [n] body).SlotSafe sight [shape] := by
  refine .func (by simp) rfl ?_ h.safe
  simp only [List.zip_cons_cons, List.zip_nil_right, List.forall_mem_singleton]
  exact fun path hread => h.allowed n path hread shape (by simp)

/-- The variable of a function is new, so that the reads of the variables in
sight are those of the body. -/
theorem FitsSight.allowed_func (h : body.FitsSight ((n, shape) :: sight))
    (hnew : sight.lookup n = none) (id : Nat) (path : List Access)
    (hread : (id, path) ∈ body.reads []) :
    ∀ shape', sight.lookup id = some shape' → shape'.Allows path := by
  intro shape' hlookup
  refine h.allowed id path hread shape' ?_
  have hne : id ≠ n := by
    rintro rfl
    rw [hnew] at hlookup
    cases hlookup
  rw [List.lookup_cons, beq_eq_false_iff_ne.mpr hne]
  exact hlookup

/-- An operation that runs a function on the elements of its first argument. -/
theorem fitsSight_over {k : Kind} {rest : List Term} {os : List (String × Term)}
    (hk : ∀ rest, ranges sight [] k (t :: rest) = t.elements sight)
    (haccess : ∀ rest, accesses [] k rest = []) (ht : t.FitsSight sight)
    (hshape : t.shape? sight = some (.sequence shape))
    (hbody : body.FitsSight ((n, shape) :: sight)) (hnew : sight.lookup n = none)
    (hrest : ∀ u ∈ rest, u.FitsSight sight) (hos : ∀ o ∈ os, o.2.FitsSight sight) :
    (op k (t :: .func [n] body :: rest) os).FitsSight sight := by
  have helements : t.elements sight = [shape] := by simp [elements, hshape, Shape.element?]
  constructor
  · refine .op ?_ fun o ho => (hos o ho).safe
    rw [hk, helements, List.forall_mem_cons, List.forall_mem_cons]
    exact ⟨ht.safe.around _, hbody.func, fun u hu => (hrest u hu).safe.around _⟩
  · intro id path hread
    rw [reads, haccess, readsAll, readsAll_eq_flatMap, readsEntries_eq_flatMap] at hread
    rw [List.mem_append, List.mem_append, List.mem_append] at hread
    rcases hread with (hread | hread | hread) | hread
    · exact ht.allowed id path hread
    · exact hbody.allowed_func hnew id path hread
    · exact FitsSight.flatMap hrest id path hread
    · refine FitsSight.flatMap (fun u hu => ?_) id path hread
      obtain ⟨o, ho, rfl⟩ := List.mem_map.mp hu
      exact hos o ho

theorem lookup_second {n m : Nat} (hne : m ≠ n) (shape shape' : Shape) :
    List.lookup m [(n, shape), (m, shape')] = some shape' := by
  rw [List.lookup_cons, beq_eq_false_iff_ne.mpr hne]
  exact List.lookup_cons_self

/-- A predicate over the elements of two sequences. -/
theorem fitsSight_innerJoin {right : Term} {m : Nat} {shape' : Shape}
    (ht : t.FitsSight []) (hright : right.FitsSight [])
    (hshape : t.shape? [] = some (.sequence shape))
    (hshape' : right.shape? [] = some (.sequence shape'))
    (hbody : body.FitsSight [(n, shape), (m, shape')]) (hne : m ≠ n) :
    (t.innerJoin right (.func [n, m] body)).FitsSight [] := by
  have hranges : ranges [] [] .innerJoin [t, right, .func [n, m] body] = [shape, shape'] := by
    simp [ranges, operandShapes, elements, hshape, hshape', Shape.element?]
  refine ⟨.op ?_ (by simp), by simp⟩
  simp only [hranges, List.forall_mem_cons]
  refine ⟨ht.safe.around _, hright.safe.around _, ?_, by simp⟩
  refine .func (by simp) rfl ?_ hbody.safe
  simp only [List.zip_cons_cons, List.zip_nil_right, List.forall_mem_cons]
  exact ⟨fun path hread => hbody.allowed n path hread shape List.lookup_cons_self,
    fun path hread => hbody.allowed m path hread shape' (lookup_second hne shape shape'), by simp⟩

@[simp] theorem fitsSight_apply {r : Reduction} (h : t.FitsSight sight) :
    (r.apply t).FitsSight sight := by
  have hdistinct : t.distinct.FitsSight sight := fitsSight_call rfl (by simpa using h)
  obtain ⟨func, distinct⟩ := r
  cases func <;> cases distinct <;>
    exact fitsSight_call rfl (by simpa)

end Term

/-! ## What a scope hands out -/

/-- The variables of the scope are in sight with the shapes of what they range
over. -/
inductive Scope.Shaped (sight : List (Nat × Term.Shape)) : Scope → Prop
  | empty : Shaped sight .empty
  | row {v width : Nat} (lookup : sight.lookup v = some (.row width)) :
      Shaped sight (.row (.var v) width)
  | pair {l r width : Nat} (left : sight.lookup l = some (.row width))
      (right : sight.lookup r = some .document) : Shaped sight (.pair (.var l) width (.var r))
  | bucket {v width : Nat} {keys : List Expr}
      (lookup : sight.lookup v = some (.group keys.length width)) :
      Shaped sight (.bucket (.var v) keys width)
  | total {rows : Term} {width : Nat} (fits : rows.FitsSight sight)
      (shape : rows.shape? sight = some (.sequence (.row width))) :
      Shaped sight (.total rows width)

namespace Scope

open Term

variable {sight : List (Nat × Term.Shape)} {scope : Scope} {t : Term} {v width r : Nat}

/-- A chain of accesses to a variable reads nothing else. -/
theorem fitsSight_of_reads {shape : Term.Shape} {path : List Access} (hsafe : t.SlotSafe sight [])
    (hreads : t.reads [] = [(v, path)]) (hv : sight.lookup v = some shape)
    (hallows : shape.Allows path) : t.FitsSight sight := by
  refine ⟨hsafe, fun id path' hmem shape' hid => ?_⟩
  rw [hreads, List.mem_singleton, Prod.mk.injEq] at hmem
  obtain ⟨rfl, rfl⟩ := hmem
  obtain rfl : shape = shape' := by simpa [hv] using hid
  exact hallows

theorem slotSafe_bracket (h : t.SlotSafe sight []) (name : String) :
    (t.bracket name).SlotSafe sight [] := by
  refine .op ?_ (by simp)
  simp only [List.forall_mem_cons]
  exact ⟨h, .datum _, by simp⟩

theorem slotSafe_nth (h : t.SlotSafe sight []) (i : Nat) : (t.nth i).SlotSafe sight [] := by
  refine .op ?_ (by simp)
  simp only [List.forall_mem_cons]
  exact ⟨h, .datum _, by simp⟩

theorem fitsSight_slot (hv : sight.lookup v = some (.row width))
    (h : slot (.var v) width r = .ok t) : t.FitsSight sight := by
  obtain ⟨hr, rfl⟩ := slot_eq_ok_iff.mp h
  split_ifs with hw
  · exact fitsSight_of_reads (.var v) rfl hv (by simp [Term.Shape.row, hw, Term.Shape.Allows])
  · refine fitsSight_of_reads (slotSafe_nth (.var v) r) (reads_nth ..) hv ?_
    simpa [Term.Shape.row, hw, Term.Shape.Allows] using hr

theorem fitsSight_slot_bracket {name : String} (hv : sight.lookup v = some (.row width))
    (h : slot (.var v) width r = .ok t) : (t.bracket name).FitsSight sight := by
  obtain ⟨hr, rfl⟩ := slot_eq_ok_iff.mp h
  split_ifs with hw
  · refine fitsSight_of_reads (slotSafe_bracket (.var v) name) (reads_bracket ..) hv ?_
    simp [Term.Shape.row, hw, Term.Shape.Allows]
  · refine fitsSight_of_reads (slotSafe_bracket (slotSafe_nth (.var v) r) name)
      ((reads_bracket ..).trans (reads_nth ..)) hv ?_
    simpa [Term.Shape.row, hw, Term.Shape.Allows] using hr

theorem Shaped.document (hs : scope.Shaped sight) (h : scope.document r = .ok t) :
    t.FitsSight sight := by
  cases hs with
  | row lookup => exact fitsSight_slot lookup h
  | pair left right =>
      rw [Scope.document] at h
      split_ifs at h
      · cases h
        exact fitsSight_of_reads (.var _) rfl right (by simp [Term.Shape.Allows])
      · exact fitsSight_slot left h
  | empty | bucket | total => cases h

theorem Shaped.field {name : String} (hs : scope.Shaped sight)
    (h : scope.field r name = .ok t) : t.FitsSight sight := by
  cases hs with
  | row lookup =>
      obtain ⟨d, hd, rfl⟩ := (field_eq_ok_iff rfl).mp h
      exact fitsSight_slot_bracket lookup hd
  | pair left right =>
      obtain ⟨d, hd, rfl⟩ := (field_eq_ok_iff rfl).mp h
      rw [Scope.document] at hd
      split_ifs at hd
      · cases hd
        refine fitsSight_of_reads (slotSafe_bracket (.var _) name) (reads_bracket ..) right ?_
        simp [Term.Shape.Allows]
      · exact fitsSight_slot_bracket left hd
  | empty =>
      simp only [Scope.field] at h
      split_ifs at h
      cases h
      exact fitsSight_datum _
  | bucket | total => cases h

theorem Shaped.keySlot {e : Expr} (hs : scope.Shaped sight) (h : scope.keySlot? e = some t) :
    t.FitsSight sight := by
  cases hs with
  | bucket lookup =>
      obtain ⟨j, hj, rfl⟩ := Option.map_eq_some_iff.mp h
      obtain ⟨hlt, -⟩ := List.findIdx?_eq_some_iff_findIdx_eq.mp hj
      refine fitsSight_of_reads (slotSafe_nth (slotSafe_bracket (.var _) "group") j) rfl lookup ?_
      exact Or.inl ⟨j, hlt, rfl⟩
  | empty | row | pair | total => cases h

theorem Shaped.rows (hs : scope.Shaped sight) (h : scope.rows? = some (t, width)) :
    t.FitsSight sight ∧ t.shape? sight = some (.sequence (.row width)) := by
  cases hs with
  | @bucket v _ keys lookup =>
      cases h
      constructor
      · refine fitsSight_of_reads (slotSafe_bracket (.var _) "reduction") rfl lookup ?_
        exact Or.inr rfl
      · simp [bracket, call, Term.string, shape?, lookup, Term.Shape.field?]
  | total fits shape =>
      cases h
      exact ⟨fits, shape⟩
  | empty | row | pair => cases h

end Scope

namespace Expr

open Compile Term

variable {engine : RegexEngine} {params : Params} {scope : Scope}
  {sight : List (Nat × Term.Shape)} {n k : Nat}

theorem isFlat_comparator (op : Comparator) : op.kind.isFlat = true := by
  cases op <;> rfl

theorem isFlat_arithmeticOp (op : ArithmeticOp) : op.kind.isFlat = true := by
  cases op <;> rfl

theorem fitsSight_connective {kind : Kind} (hk : kind.isFlat) {neutral : Bool}
    {ts : List Term} (h : ∀ t ∈ ts, t.FitsSight sight) :
    (connective (call kind) neutral ts).FitsSight sight := by
  match ts with
  | [] => exact fitsSight_datum _
  | [t] => exact h t List.mem_cons_self
  | t :: u :: rest => exact fitsSight_call hk h

theorem fitsSight_build {e : Expr} {v : Json} {ts : List Term}
    (h : ∀ t ∈ ts, t.FitsSight sight) : (e.build v ts).FitsSight sight := by
  unfold build
  split
  case h_4 => exact fitsSight_call (isFlat_comparator _) h
  case h_5 => exact fitsSight_call (isFlat_arithmeticOp _) h
  case h_6 | h_7 => exact fitsSight_connective rfl h
  case h_13 | h_14 => exact fitsSight_makeArray h
  case h_15 => exact fitsSight_makeObject fun e he => h e.2 (List.of_mem_zip he).2
  case h_8 | h_10 => exact fitsSight_call rfl h
  all_goals
    first
      | exact fitsSight_datum _
      | exact fitsSight_call rfl (by simp_all)

/-- Variables are drawn above those in sight. -/
theorem fitsSight_of_yields {e : Expr} {t : Term} (h : (e.compile engine params scope).Yields n t k)
    (hs : scope.Shaped sight) (hsight : ∀ b ∈ sight, b.1 < n) : t.FitsSight sight := by
  induction e using inductionOnOperands generalizing scope sight n t k with
  | step e ih =>
      cases yields_compile_iff.mp h with
      | key slot => exact hs.keySlot slot
      | field _ read => exact hs.field read
      | entity _ read => exact hs.document read
      | whole _ rows_eq => exact fitsSight_apply (hs.rows rows_eq).1
      | @mapped func arg distinct _ _ width rows f _ rows_eq _ _ func_eq =>
          obtain ⟨body, hbody, rfl⟩ := yields_lambda.mp func_eq
          obtain ⟨hrows, hshape⟩ := hs.rows rows_eq
          have hnew : sight.lookup n = none := by
            rw [List.lookup_eq_none_iff]
            intro b hb
            exact bne_iff_ne.mpr (Nat.ne_of_gt (hsight b hb))
          have hfits : body.FitsSight ((n, .row width) :: sight) := by
            refine ih arg (List.mem_singleton_self arg) hbody (.row (by simp)) ?_
            rw [List.forall_mem_cons]
            exact ⟨Nat.lt_succ_self n, fun b hb => Nat.lt_succ_of_lt (hsight b hb)⟩
          exact fitsSight_apply (fitsSight_over (fun _ => rfl) (fun _ => rfl) hrows hshape hfits
            hnew (by simp) (by simp))
      | plain _ _ _ operands_eq =>
          refine fitsSight_build (operands_eq.forall_upTo (P := fun _ t => t.FitsSight sight)
            (fun _ ht => ht) (fun x _ => grows_compile x scope) ?_)
          intro x hx i u j hi hu
          exact ih x hx hu hs fun b hb => Nat.lt_of_lt_of_le (hsight b hb) hi

end Expr

end DocQuery
