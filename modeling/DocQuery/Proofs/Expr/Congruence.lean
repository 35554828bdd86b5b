import DocQuery.Proofs.Expr.Operands
import DocQuery.Proofs.Simulation

/-!
# Relations that building respects

What an expression builds out of related terms is related. That takes a relation
which the operators of expressions respect. Most relations here are respected by
all formers of terms, the reading of a table apart: they may tell tables from each
other.
-/

namespace DocQuery

/-- Compares, computes or combines values. -/
def Term.Kind.isOperator : Term.Kind → Bool
  | .eq | .ne | .lt | .le | .gt | .ge | .add | .sub | .mul | .div | .and | .or | .not
  | .contains | .matchRegex => true
  | _ => false

/-- Related operands make related values. -/
structure Term.OperatorCongruence (R : Term → Term → Prop) : Prop where
  datum (v : Json) : R (.datum v) (.datum v)
  makeArray {ts us : List Term} (items : List.Forall₂ R ts us) : R (.makeArray ts) (.makeArray us)
  makeObject {keys : List String} {ts us : List Term} (values : List.Forall₂ R ts us) :
    R (.makeObject (keys.zip ts)) (.makeObject (keys.zip us))
  call {kind : Term.Kind} {ts us : List Term} (operator : kind.isOperator)
    (args : List.Forall₂ R ts us) : R (.call kind ts) (.call kind us)

/-- Related parts make related terms. -/
structure Term.Congruence (R : Term → Term → Prop) : Prop where
  datum (v : Json) : R (.datum v) (.datum v)
  func {ps : List Nat} {t u : Term} (body : R t u) : R (.func ps t) (.func ps u)
  makeArray {ts us : List Term} (items : List.Forall₂ R ts us) : R (.makeArray ts) (.makeArray us)
  makeObject {keys : List String} {ts us : List Term} (values : List.Forall₂ R ts us) :
    R (.makeObject (keys.zip ts)) (.makeObject (keys.zip us))
  call {kind : Term.Kind} {ts us : List Term} (notTable : kind ≠ .table)
    (args : List.Forall₂ R ts us) : R (.call kind ts) (.call kind us)

namespace Term.OperatorCongruence

variable {R : Term → Term → Prop}

theorem connective (hR : OperatorCongruence R) {kind : Kind} (hkind : kind.isOperator)
    (neutral : Bool) {ts us : List Term} (h : List.Forall₂ R ts us) :
    R (Expr.connective (.call kind) neutral ts) (Expr.connective (.call kind) neutral us) := by
  rcases h with _ | ⟨ht, _ | ⟨hu, hrest⟩⟩
  · exact hR.datum _
  · exact ht
  · exact hR.call hkind (.cons ht (.cons hu hrest))

/-- A term is built from its datum and its operands alone, whichever they are. -/
theorem build (hR : OperatorCongruence R) {e : Expr} {v w : Json} {ts us : List Term}
    (hv : R (.datum v) (.datum w)) (h : List.Forall₂ R ts us) :
    R (e.build v ts) (e.build w us) := by
  cases e with
  | literal | param | paramSlice | field | entity | aggregate | update => exact hv
  | and | or => exact hR.connective rfl _ h
  | tuple | list => exact hR.makeArray h
  | map entries => exact hR.makeObject h
  | compare | arith =>
      rename_i op _ _
      rcases h with _ | ⟨hl, _ | ⟨hr, _ | ⟨-, -⟩⟩⟩
      · exact hv
      · exact hv
      · exact hR.call (by cases op <;> rfl) (.cons hl (.cons hr .nil))
      · exact hv
  | not =>
      rcases h with _ | ⟨ht, _ | ⟨-, -⟩⟩
      · exact hv
      · exact hR.call rfl (.cons ht .nil)
      · exact hv
  | isNull =>
      rcases h with _ | ⟨ht, _ | ⟨-, -⟩⟩
      · exact hv
      · exact hR.call rfl (.cons ht (.cons (hR.datum _) .nil))
      · exact hv
  | like =>
      rcases h with _ | ⟨ht, _ | ⟨-, -⟩⟩
      · exact hv
      · exact hR.call rfl (.cons ht (.cons hv .nil))
      · exact hv
  | isIn =>
      rcases h with _ | ⟨hl, _ | ⟨ht, _ | ⟨-, -⟩⟩⟩
      · exact hv
      · exact hR.call rfl (.cons hv (.cons hl .nil))
      · exact hR.call rfl (.cons hl (.cons ht .nil))
      · exact hv

end Term.OperatorCongruence

namespace Term.Congruence

variable {R : Term → Term → Prop}

theorem operators (hR : Congruence R) : OperatorCongruence R where
  datum := hR.datum
  makeArray := hR.makeArray
  makeObject := hR.makeObject
  call operator := hR.call fun htable => by
    rw [htable] at operator
    cases operator

theorem build (hR : Congruence R) {e : Expr} {v w : Json} {ts us : List Term}
    (hv : R (.datum v) (.datum w)) (h : List.Forall₂ R ts us) :
    R (e.build v ts) (e.build w us) :=
  hR.operators.build hv h

theorem apply (hR : Congruence R) (r : Reduction) {t u : Term} (h : R t u) :
    R (r.apply t) (r.apply u) := by
  obtain ⟨func, distinct⟩ := r
  have hone {kind : Kind} (hkind : kind ≠ .table) {t u : Term} (h : R t u) :
      R (Term.call kind [t]) (Term.call kind [u]) := hR.call hkind (.cons h .nil)
  cases distinct with
  | false => cases func <;> exact hone (by nofun) h
  | true => cases func <;> exact hone (by nofun) (hone (by nofun) h)

end Term.Congruence

namespace Expr

open Compile

/-- Plain expressions that take the same datum and are built in the same way are
matched where their operands are. -/
theorem matchedBy_of_isPlain {R : Term → Term → Prop} (hR : Term.Congruence R)
    {engine : RegexEngine} {params params' : Params} {scope : Scope} {e e' : Expr}
    (hp : e.isPlain) (hp' : e'.isPlain) (hk : scope.keySlot? e = none)
    (hk' : scope.keySlot? e' = none)
    (hdatum : ∀ v, e.datum engine params = .ok v → e'.datum engine params' = .ok v)
    (hbuild : e'.build = e.build)
    (hoperands : MatchedBy (List.Forall₂ R) (e.operands.mapM (compile engine params scope))
      (e'.operands.mapM (compile engine params' scope))) :
    MatchedBy R (e.compile engine params scope) (e'.compile engine params' scope) := by
  have hlift : MatchedBy Eq (liftM (e.datum engine params) : Compile Json)
      (liftM (e'.datum engine params')) :=
    matchedBy_lift fun v hv => ⟨v, hdatum v hv, rfl⟩
  rw [compile_of_isPlain hp hk, compile_of_isPlain hp' hk', hbuild]
  refine hlift.bind fun v w hvw => hoperands.bind fun ts us htu => matchedBy_pure ?_
  subst hvw
  exact hR.build (hR.datum v) htu

end Expr

end DocQuery
