import DocQuery.Proofs.Expr.Operands
import DocQuery.Proofs.Hygiene.Terms

/-!
# Variables in compiled expressions

An expression compiles to a term over what its scope shows and over variables
that it draws itself.
-/

namespace DocQuery

/-! ## What a scope hands out -/

namespace Scope

/-- The terms that a scope is made of. -/
def terms : Scope → List Term
  | .empty => []
  | .row record _ => [record]
  | .pair left _ right => [left, right]
  | .bucket group _ _ => [group]
  | .total rows _ => [rows]

/-- A property of the terms of a scope that also what is read from them has. -/
structure Inherited (P : Term → Prop) : Prop where
  bracket : ∀ {t : Term} (name : String), P t → P (t.bracket name)
  nth : ∀ {t : Term} (i : Nat), P t → P (t.nth i)
  string : ∀ s : String, P (.string s)

namespace Inherited

variable {P : Term → Prop} {scope : Scope} {t : Term}

theorem slot {record : Term} {width r : Nat} (hP : Inherited P) (hr : P record)
    (h : Scope.slot record width r = .ok t) : P t := by
  simp only [Scope.slot] at h
  split_ifs at h <;> cases h
  · exact hr
  · exact hP.nth r hr

theorem document {r : Nat} (hP : Inherited P) (hs : ∀ u ∈ scope.terms, P u)
    (h : scope.document r = .ok t) : P t := by
  cases scope with
  | row record width => exact hP.slot (hs record List.mem_cons_self) h
  | pair left width right =>
      obtain ⟨hl, hr⟩ : P left ∧ P right := by simpa [terms] using hs
      rw [Scope.document] at h
      split_ifs at h
      · cases h
        exact hr
      · exact hP.slot hl h
  | empty | bucket | total => cases h

theorem field {r : Nat} {name : String} (hP : Inherited P) (hs : ∀ u ∈ scope.terms, P u)
    (h : scope.field r name = .ok t) : P t := by
  cases scope with
  | row | pair =>
      simp only [Scope.field] at h
      rcases hd : Scope.document r _ with _ | d
      · rw [hd] at h
        cases h
      · rw [hd] at h
        cases h
        exact hP.bracket name (hP.document hs hd)
  | empty =>
      simp only [Scope.field] at h
      split_ifs at h
      cases h
      exact hP.string name
  | bucket | total => cases h

theorem keySlot {e : Expr} (hP : Inherited P) (hs : ∀ u ∈ scope.terms, P u)
    (h : scope.keySlot? e = some t) : P t := by
  cases scope with
  | bucket group keys width =>
      obtain ⟨i, -, rfl⟩ := Option.map_eq_some_iff.mp h
      exact hP.nth i (hP.bracket "group" (hs group List.mem_cons_self))
  | empty | row | pair | total => cases h

theorem rows {width : Nat} (hP : Inherited P) (hs : ∀ u ∈ scope.terms, P u)
    (h : scope.rows? = some (t, width)) : P t := by
  cases scope with
  | bucket group keys w =>
      cases h
      exact hP.bracket "reduction" (hs group List.mem_cons_self)
  | total rows w =>
      cases h
      exact hs t List.mem_cons_self
  | empty | row | pair => cases h

end Inherited

theorem inherited_wellBuilt (sight : List Nat) (n : Nat) :
    Inherited fun t => t.WellBuilt sight n where
  bracket name h := by simpa [Term.bracket, Term.string, Term.Kind.isGeneric] using h
  nth i h := by simpa [Term.nth, Term.nat, Term.Kind.isGeneric] using h
  string s := Term.wellBuilt_datum _

theorem inherited_noBinders : Inherited fun t => t.binders = [] where
  bracket name h := by simp [Term.bracket, Term.string, Term.binders, h]
  nth i h := by simp [Term.nth, Term.nat, Term.binders, h]
  string s := rfl

end Scope

/-! ## What is built from the operands -/

namespace Compile

variable {α β : Type} {n k : Nat}

theorem YieldsEach.drawn {ids : β → List Nat} {f : α → Compile β} {as : List α} {bs : List β}
    (h : YieldsEach f as n bs k)
    (hf : ∀ a ∈ as, ∀ n b k, (f a).Yields n b k → Term.Drawn n k (ids b)) :
    Term.Drawn n k (bs.flatMap ids) := by
  induction h with
  | nil => exact .nil (Nat.le_refl _)
  | cons head _ ih =>
      rw [List.forall_mem_cons] at hf
      rw [List.flatMap_cons]
      exact (hf.1 _ _ _ head).append (ih hf.2)

theorem YieldsEach.fresh {f : α → Compile Term} {as : List α} {ts : List Term}
    (h : YieldsEach f as n ts k)
    (hf : ∀ a ∈ as, ∀ n t k, (f a).Yields n t k → Term.Fresh n k [t]) : Term.Fresh n k ts := by
  induction h with
  | nil => exact .static (by simp) (by simp)
  | cons head _ ih =>
      rw [List.forall_mem_cons] at hf
      exact (hf.1 _ _ _ head).cons (ih hf.2)

end Compile

namespace Expr

open Compile Term

variable {engine : RegexEngine} {params : Params} {scope : Scope} {sight : List Nat} {n k : Nat}

theorem isGeneric_comparator (op : Comparator) : op.kind.isGeneric = true := by
  cases op <;> rfl

theorem isGeneric_arithmeticOp (op : ArithmeticOp) : op.kind.isGeneric = true := by
  cases op <;> rfl

theorem wellBuilt_connective {kind : Kind} (hk : kind.isGeneric) {neutral : Bool}
    {ts : List Term} (h : ∀ t ∈ ts, t.WellBuilt sight k) :
    (connective (call kind) neutral ts).WellBuilt sight k := by
  match ts with
  | [] => exact wellBuilt_datum _
  | [t] => exact h t List.mem_cons_self
  | t :: u :: rest => exact wellBuilt_call.mpr ⟨hk, h⟩

theorem wellBuilt_build {e : Expr} {v : Json} {ts : List Term}
    (h : ∀ t ∈ ts, t.WellBuilt sight k) : (e.build v ts).WellBuilt sight k := by
  unfold build
  split
  case h_4 => exact wellBuilt_call.mpr ⟨isGeneric_comparator _, h⟩
  case h_5 => exact wellBuilt_call.mpr ⟨isGeneric_arithmeticOp _, h⟩
  case h_6 | h_7 => exact wellBuilt_connective rfl h
  case h_13 | h_14 => exact wellBuilt_makeArray.mpr h
  case h_15 =>
    rw [wellBuilt_makeObject]
    intro e he
    exact h e.2 (List.of_mem_zip he).2
  all_goals simp_all [Term.not, Term.contains, Term.binary, Kind.isGeneric]

/-- Building draws nothing and forgets nothing. -/
theorem binders_build {e : Expr} {v : Json} {ts : List Term} (hp : e.isPlain)
    (hlen : ts.length = e.operands.length) : (e.build v ts).binders = ts.flatMap binders :=
  collect_build binders_datum binders_makeArray binders_makeObject
    (fun kind ts _ => binders_call kind ts) hp hlen

@[simp] theorem wellBuilt_apply {r : Reduction} {seq : Term} :
    (r.apply seq).WellBuilt sight k ↔ seq.WellBuilt sight k := by
  obtain ⟨func, distinct⟩ := r
  cases func <;> cases distinct <;>
    simp [Reduction.apply, Term.count, Term.sum, Term.avg, Term.min, Term.max, Term.distinct,
      Kind.isGeneric]

@[simp] theorem binders_apply (r : Reduction) (seq : Term) :
    (r.apply seq).binders = seq.binders := by
  obtain ⟨func, distinct⟩ := r
  cases func <;> cases distinct <;>
    simp [Reduction.apply, Term.count, Term.sum, Term.avg, Term.min, Term.max, Term.distinct]

/-! ## Compiled expressions -/

/-- The sight and the terms of the scope have numbers from before, and the
variables of aggregated rows come after them. -/
theorem wellBuilt_of_yields {e : Expr} {t : Term} (h : (e.compile engine params scope).Yields n t k)
    (hsight : ∀ b ∈ sight, b < n) (hs : ∀ u ∈ scope.terms, u.WellBuilt sight n) :
    t.WellBuilt sight k := by
  induction e using inductionOnOperands generalizing scope sight n t k with
  | step e ih =>
      have hread := Scope.inherited_wellBuilt sight n
      cases yields_compile_iff.mp h with
      | key slot => exact hread.keySlot hs slot
      | field _ read => exact hread.field hs read
      | entity _ read => exact hread.document hs read
      | whole _ rows_eq => exact wellBuilt_apply.mpr (hread.rows hs rows_eq)
      | @mapped func arg distinct _ _ width rows f _ rows_eq _ _ func_eq =>
          obtain ⟨body, hbody, rfl⟩ := yields_lambda.mp func_eq
          have hk : n < k := (grows_compile arg _).le hbody
          -- the row is `n`, which is new to the sight and is drawn before the body
          have hrow : body.WellBuilt (n :: sight) k := by
            refine ih arg (List.mem_singleton_self arg) hbody ?_ ?_
            · rw [List.forall_mem_cons]
              exact ⟨Nat.lt_succ_self n, fun b hb => Nat.lt_succ_of_lt (hsight b hb)⟩
            · simpa [Scope.terms] using wellBuilt_var List.mem_cons_self
          have hrows := (hread.rows hs rows_eq).mono (Nat.le_of_lt hk)
          rw [wellBuilt_apply, Term.map, wellBuilt_call]
          simpa [Kind.isGeneric, hrows] using WellBuilt.func₁ hsight hk hrow
      | plain _ _ _ operands_eq =>
          refine wellBuilt_build (operands_eq.forall_upTo (fun hij ht => ht.mono hij)
            (fun x _ => grows_compile x scope) ?_)
          -- an operand starts where the one before it ended
          intro x hx i u j hi hu
          refine ih x hx hu (fun b hb => Nat.lt_of_lt_of_le (hsight b hb) hi) ?_
          exact fun w hw => (hs w hw).mono hi

/-- Over terms without functions, whatever is bound was drawn on the way. -/
theorem drawn_of_yields {e : Expr} {t : Term} (h : (e.compile engine params scope).Yields n t k)
    (hs : ∀ u ∈ scope.terms, u.binders = []) : Drawn n k t.binders := by
  induction e using inductionOnOperands generalizing scope n t k with
  | step e ih =>
      have hread := Scope.inherited_noBinders
      have hnone {u : Term} (hu : u.binders = []) : Drawn n n u.binders := by
        rw [hu]
        exact .nil (Nat.le_refl n)
      cases yields_compile_iff.mp h with
      | key slot => exact hnone (hread.keySlot hs slot)
      | field _ read => exact hnone (hread.field hs read)
      | entity _ read => exact hnone (hread.document hs read)
      | whole _ rows_eq => exact hnone ((binders_apply _ _).trans (hread.rows hs rows_eq))
      | @mapped func arg distinct _ _ width rows f _ rows_eq _ _ func_eq =>
          obtain ⟨body, hbody, rfl⟩ := yields_lambda.mp func_eq
          have hrow : Drawn (n + 1) k body.binders :=
            ih arg (List.mem_singleton_self arg) hbody (by simp [Scope.terms])
          have hrows : rows.binders = [] := hread.rows hs rows_eq
          simpa [Term.map, hrows] using hrow.cons
      | plain _ isPlain _ operands_eq =>
          rw [binders_build isPlain operands_eq.length_eq]
          exact operands_eq.drawn fun x hx n t k hx' => ih x hx hx' hs

/-- A function of one element over an expression. -/
theorem fresh_lambda {e : Expr} {scope : Term → Scope} {f : Term}
    (hscope : ∀ element, (scope element).terms = [element])
    (h : (lambda fun element => e.compile engine params (scope element)).Yields n f k) :
    Fresh n k [f] := by
  obtain ⟨body, hbody, rfl⟩ := yields_lambda.mp h
  refine .func₁ (wellBuilt_of_yields hbody (by simp) ?_) (drawn_of_yields hbody ?_)
  · simpa [hscope] using wellBuilt_var (List.mem_singleton_self n)
  · simp [hscope]

end Expr

end DocQuery
