import DocQuery.Proofs.Acceptance.Expr
import DocQuery.Proofs.Expr.Congruence

/-!
# Aggregates over a group and over a sequence

Apart from its keys, a group is a sequence of records to be folded. An expression
that reads no key therefore compiles in a group as it does over a whole sequence:
it is rejected alike and draws the same numbers, and its aggregates differ in the
records that they fold and in nothing else.
-/

namespace DocQuery

namespace Term

mutual

/-- The records under the steps that an aggregate takes before it folds, exchanged:
their values are computed, and repeated ones removed. -/
def withInput (rows : Term) : Term → Term
  | .op .distinct args optargs => .op .distinct (withFirstInput rows args) optargs
  | .op .map args optargs => .op .map (withFirstInput rows args) optargs
  | _ => rows

def withFirstInput (rows : Term) : List Term → List Term
  | [] => []
  | t :: rest => withInput rows t :: rest

end

mutual

/-- A term whose aggregates fold other records. Functions are left as they are. -/
def refold (rows : Term) : Term → Term
  | .makeArray items => .makeArray (refoldAll rows items)
  | .makeObject entries => .makeObject (refoldEntries rows entries)
  | .op kind args optargs =>
    .op kind (if kind.isReduction then args.map (withInput rows) else refoldAll rows args)
      (refoldEntries rows optargs)
  | t => t

def refoldAll (rows : Term) : List Term → List Term
  | [] => []
  | t :: rest => refold rows t :: refoldAll rows rest

def refoldEntries (rows : Term) : List (String × Term) → List (String × Term)
  | [] => []
  | (k, t) :: rest => (k, refold rows t) :: refoldEntries rows rest

end

variable {rows : Term}

theorem refoldAll_eq_map (ts : List Term) : refoldAll rows ts = ts.map (refold rows) := by
  induction ts with
  | nil => rfl
  | cons t rest ih => rw [refoldAll, List.map_cons, ih]

theorem refoldEntries_eq_map (es : List (String × Term)) :
    refoldEntries rows es = es.map fun e => (e.1, refold rows e.2) := by
  induction es with
  | nil => rfl
  | cons e rest ih => rw [refoldEntries, List.map_cons, ih]

theorem refold_call {kind : Kind} (h : kind.isReduction = false) (ts : List Term) :
    refold rows (call kind ts) = .call kind (ts.map (refold rows)) := by
  simp [call, refold, h, refoldAll_eq_map, refoldEntries]

theorem refold_apply (r : Reduction) (t : Term) :
    refold rows (r.apply t) = r.apply (withInput rows t) := by
  obtain ⟨func, distinct⟩ := r
  cases distinct <;> cases func <;> rfl

theorem Kind.isReduction_of_isOperator {kind : Kind} (h : kind.isOperator) :
    kind.isReduction = false := by
  cases kind <;> first | rfl | cases h

theorem operatorCongruence_refold : OperatorCongruence fun t u => u = refold rows t where
  datum _ := rfl
  makeArray h := by
    rw [Compile.forall₂_eq_map] at h
    rw [h, refold, refoldAll_eq_map]
  makeObject h := by
    rw [Compile.forall₂_eq_map] at h
    rw [h, refold, refoldEntries_eq_map, List.zip_map_right]
    rfl
  call hkind h := by
    rw [Compile.forall₂_eq_map] at h
    rw [h, refold_call (Kind.isReduction_of_isOperator hkind)]

end Term

/-- Where there are records to fold, there are groups or one of them. -/
theorem Scope.exists_groupKeys? {scope : Scope} {rows : Term} {width : Nat}
    (h : scope.rows? = some (rows, width)) : ∃ keys, scope.groupKeys? = some keys := by
  cases scope with
  | bucket group keys => exact ⟨keys, rfl⟩
  | total => exact ⟨[], rfl⟩
  | _ => cases h

namespace Expr

open Compile

/-- The subexpressions that are evaluated where the expression is. The argument of
an aggregate is not: it is evaluated for each record. -/
inductive Evaluates : Expr → Expr → Prop
  | self (e : Expr) : Evaluates e e
  | operand {e x y : Expr} (plain : e.isPlain) (mem : x ∈ e.operands) (inner : Evaluates x y) :
      Evaluates e y

/-- Nothing that is evaluated where the expression is equals a key. -/
def ReadsNoKey (keys : List Expr) (e : Expr) : Prop :=
  ∀ x, e.Evaluates x → ∀ key ∈ keys, key.sameAs x = false

variable {engine : RegexEngine} {params : Params} {keys : List Expr} {e : Expr}
  {group rows : Term} {width n k : Nat}

theorem readsNoKey_iff :
    e.ReadsNoKey keys ↔ (∀ key ∈ keys, key.sameAs e = false) ∧
      (e.isPlain → ∀ x ∈ e.operands, x.ReadsNoKey keys) := by
  constructor
  · intro h
    exact ⟨h e (.self e), fun hp x hx y hy => h y (.operand hp hx hy)⟩
  · rintro ⟨hself, hoperands⟩ x hx
    cases hx with
    | self => exact hself
    | operand plain mem inner => exact hoperands plain _ mem x inner

/-- One compilation in two scopes that have records to fold and give no key. -/
theorem compile_refold {scope scope' : Scope} {source : Term}
    (hs : scope.rows? = some (source, width)) (hs' : scope'.rows? = some (rows, width))
    (hsource : Term.withInput rows source = rows)
    (hk : ∀ x, e.Evaluates x → scope.keySlot? x = none ∧ scope'.keySlot? x = none) :
    e.compile engine params scope' = Term.refold rows <$> e.compile engine params scope := by
  obtain ⟨keys, hkeys⟩ := Scope.exists_groupKeys? hs
  obtain ⟨keys', hkeys'⟩ := Scope.exists_groupKeys? hs'
  induction e using inductionOnOperands with
  | step e ih =>
      obtain ⟨hself, hself'⟩ := hk e (.self e)
      cases e with
      | field r name =>
          rw [compile.eq_def, compile.eq_def, hself, hself']
          simp only [Scope.field_of_groupKeys hkeys, Scope.field_of_groupKeys hkeys']
          exact throw_eq_map _ _
      | entity r =>
          rw [compile.eq_def, compile.eq_def, hself, hself']
          simp only [Scope.document_of_groupKeys hkeys, Scope.document_of_groupKeys hkeys']
          exact throw_eq_map _ _
      | update op name v =>
          rw [compile.eq_def, compile.eq_def, hself, hself']
          exact throw_eq_map _ _
      | aggregate func arg distinct =>
          rw [compile_aggregate hself hs, compile_aggregate hself' hs']
          split_ifs
          · exact throw_eq_map _ _
          · rw [map_pure, Term.refold_apply, hsource]
          · -- the function of the argument is compiled against its own record
            rw [map_bind]
            refine bind_congr fun f => ?_
            have hmap : Term.withInput rows (source.map f) = rows.map f := by
              rw [Term.map, Term.call, Term.withInput, Term.withFirstInput, hsource]
              rfl
            rw [map_pure, Term.refold_apply, hmap]
      | _ =>
          rw [compile_of_isPlain rfl hself, compile_of_isPlain rfl hself', map_bind]
          refine bind_congr fun v => ?_
          have hoperands := mapM_eq_map fun x hx => ih x hx fun y hy =>
            hk y (.operand rfl hx hy)
          refine bind_eq_map hoperands fun ts => ?_
          rw [map_pure]
          exact congrArg pure (Term.operatorCongruence_refold.build rfl (forall₂_eq_map.mpr rfl))

theorem compile_total_of_bucket (h : e.ReadsNoKey keys) :
    e.compile engine params (.total rows width) =
      Term.refold rows <$> e.compile engine params (.bucket group keys width) := by
  have hrows : (Scope.bucket group keys width).rows? = some (group.bracket "reduction", width) :=
    rfl
  exact compile_refold hrows rfl rfl fun _ hx => ⟨Scope.keySlot?_bucket_eq_none (h _ hx), rfl⟩

/-- In a group, all aggregates fold the records of the group. -/
theorem refold_of_yields_bucket {t : Term} (h : e.ReadsNoKey keys)
    (ht : (e.compile engine params (.bucket group keys width)).Yields n t k) :
    Term.refold (group.bracket "reduction") t = t := by
  have hself : e.compile engine params (.bucket group keys width) =
      Term.refold (group.bracket "reduction") <$>
        e.compile engine params (.bucket group keys width) :=
    compile_refold rfl rfl rfl fun _ hx =>
      ⟨Scope.keySlot?_bucket_eq_none (h _ hx), Scope.keySlot?_bucket_eq_none (h _ hx)⟩
  have hrefold : (e.compile engine params (.bucket group keys width)).Yields n
      (Term.refold (group.bracket "reduction") t) k := by
    rw [hself]
    exact yields_map.mpr ⟨t, ht, rfl⟩
  have hrun := hrefold.symm.trans ht
  simpa using hrun

end Expr

/-- An expression that reads no key compiles alike in a group and over a whole
sequence. Either both are rejected, with the same rejection, or the second term is
the first with the sequence in the place of the records of the group, wherever an
aggregate folds. The numbers that are drawn are the same. -/
theorem bucket_and_total_compile_alike (engine : RegexEngine) (params : Params)
    (group rows : Term) (width n : Nat) {keys : List Expr} {e : Expr} (h : e.ReadsNoKey keys) :
    ∃ k,
      (∃ r, (e.compile engine params (.bucket group keys width)).runFrom n = (.error r, k) ∧
        (e.compile engine params (.total rows width)).runFrom n = (.error r, k)) ∨
      ∃ t, (e.compile engine params (.bucket group keys width)).runFrom n = (.ok t, k) ∧
        Term.refold (group.bracket "reduction") t = t ∧
          (e.compile engine params (.total rows width)).runFrom n =
            (.ok (Term.refold rows t), k) := by
  have htotal : (e.compile engine params (.total rows width)).runFrom n =
      (Term.refold rows <$> e.compile engine params (.bucket group keys width)).runFrom n :=
    congrArg (·.runFrom n) (Expr.compile_total_of_bucket h)
  rw [Compile.runFrom_map] at htotal
  rcases hrun : (e.compile engine params (.bucket group keys width)).runFrom n with ⟨_ | t, k⟩
  · rw [hrun] at htotal
    exact ⟨k, Or.inl ⟨_, rfl, htotal⟩⟩
  · rw [hrun] at htotal
    exact ⟨k, Or.inr ⟨t, rfl, Expr.refold_of_yields_bucket h hrun, htotal⟩⟩

/-- The average of the different scores, and the posts of an author. -/
theorem bucket_and_total_compile_alike_of_scores :
    let keys : List Expr := [.field 0 "author_id"]
    let scores : Expr := .aggregate .avg (.field 0 "score") true
    let e : Expr := .tuple [scores, .aggregate .count (.entity 0) false]
    let byAuthor : Scope := .bucket (.var 1) keys 1
    let posts := Term.table none "posts"
    let score := Term.func [2] ((Term.var 2).bracket "score")
    let folded (rows : Term) := Term.makeArray [(rows.map score).distinct.avg, rows.count]
    e.ReadsNoKey keys ∧
      (e.compile {} [] byAuthor).runFrom 2 = (.ok (folded ((Term.var 1).bracket "reduction")), 3) ∧
        (e.compile {} [] (.total posts 1)).runFrom 2 = (.ok (folded posts), 3) := by
  intro keys scores e byAuthor posts score folded
  have hkeys : e.ReadsNoKey keys := by
    refine Expr.readsNoKey_iff.mpr ⟨by decide, fun _ x hx => ?_⟩
    rcases List.mem_pair.mp hx with rfl | rfl
    · exact Expr.readsNoKey_iff.mpr ⟨by decide, nofun⟩
    · exact Expr.readsNoKey_iff.mpr ⟨by decide, nofun⟩
  obtain ⟨k, ⟨r, hr, -⟩ | ⟨t, ht, -, htotal⟩⟩ :=
    bucket_and_total_compile_alike {} [] (.var 1) posts 1 2 hkeys
  · cases hr
  · cases ht
    exact ⟨hkeys, rfl, htotal⟩

end DocQuery
