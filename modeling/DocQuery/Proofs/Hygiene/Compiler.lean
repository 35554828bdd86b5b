import DocQuery.Proofs.Hygiene.Session
import DocQuery.Proofs.Pipeline.Writes

/-!
# Variables in compiled queries and writes

A query is one call on a session and a write is one more operation around the
rows that it touches.
-/

namespace DocQuery

open Compile Term

/-! ## Writes -/

theorem Config.extends_withWriteOptions {c : Config} {isInsert : Bool} {kind : Kind} {t : Term}
    {args : List Term} {n k : Nat} (generic : kind.isGeneric) (h : Fresh n k args) :
    Extends n k t (c.withWriteOptions isInsert (.call kind (t :: args))) := by
  obtain ⟨os, hos, heq⟩ := c.withWriteOptions_call isInsert kind
  have hdata : ∀ u ∈ os.map (·.2), ∃ v, u = .datum v := by
    intro u hu
    obtain ⟨o, ho, rfl⟩ := List.mem_map.mp hu
    exact hos o ho
  rw [heq]
  refine .op generic (h.append (.static ?_ ?_))
  · intro u hu
    obtain ⟨v, rfl⟩ := hdata u hu
    exact wellBuilt_datum v
  · intro u hu
    obtain ⟨v, rfl⟩ := hdata u hu
    rfl

namespace Expr

theorem wellBuilt_patched {sight : List Nat} {n : Nat} {op : UpdateOp} {current value : Term}
    (hc : current.WellBuilt sight n) (hv : value.WellBuilt sight n) :
    (patched op current value).WellBuilt sight n := by
  cases op <;> simp [patched, Term.binary, Term.append, Term.difference, Kind.isGeneric, hc, hv]

theorem binders_patched {op : UpdateOp} {current : Term} (value : Term)
    (hc : current.binders = []) : (patched op current value).binders = value.binders := by
  cases op <;> simp [patched, Term.binary, Term.append, Term.difference, hc]

end Expr

namespace Setting

variable {s : Setting} {n k : Nat} {t : Term}

theorem fresh_patch {updates : List Expr} {patch : Term}
    (h : (s.patch updates (.var n)).Yields (n + 1) patch k) : Fresh n k [.func [n] patch] := by
  obtain ⟨entries, hentries, -, rfl⟩ := yields_patch.mp h
  have hvar {m : Nat} : (Term.var n).WellBuilt [n] m := wellBuilt_var (List.mem_singleton_self n)
  refine .func₁ ?_ ?_
  · rw [wellBuilt_makeObject]
    refine hentries.forall_upTo (P := fun i entry => entry.2.WellBuilt [n] i)
      (fun hij he => he.mono hij) (fun e _ => Expr.grows_compileUpdate e) ?_
    intro e _ i entry j hi h
    obtain ⟨op, name, v, value, -, hv, rfl⟩ := Expr.yields_compileUpdate.mp h
    refine Expr.wellBuilt_patched ?_ ?_
    · simpa [Term.bracket, Term.string, Kind.isGeneric] using hvar
    · refine Expr.wellBuilt_of_yields hv ?_ (by simpa [Scope.terms] using hvar)
      intro b hb
      obtain rfl := List.mem_singleton.mp hb
      exact hi
  · rw [binders_makeObject, List.flatMap_map]
    refine hentries.drawn fun e _ i entry j h => ?_
    obtain ⟨op, name, v, value, -, hv, rfl⟩ := Expr.yields_compileUpdate.mp h
    rw [Expr.binders_patched value (by simp [Term.bracket, Term.string])]
    exact Expr.drawn_of_yields hv (by simp [Scope.terms])

theorem extends_updateAllTerm {p : Pipeline} {updates : List Expr}
    (h : (s.updateAllTerm p updates).Yields n t k) : Extends n k p.term t := by
  obtain ⟨-, patch, hpatch, rfl⟩ := yields_updateAllTerm.mp h
  exact Config.extends_withWriteOptions rfl (fresh_patch hpatch)

theorem extends_deleteAllTerm (p : Pipeline) : Extends n n p.term (s.deleteAllTerm p) :=
  Config.extends_withWriteOptions rfl (.static (by simp) (by simp))

end Setting

/-! ## Compiled terms -/

namespace Compiler

variable {c : Compiler} {q : Query} {params : Params} {n k : Nat} {t : Term}

theorem wellBuilt_query (h : (c.query q params).Yields n t k) : t.WellBuilt [] k := by
  simp only [query, yields_bind, yields_pure] at h
  obtain ⟨p, j, hp, rfl, rfl⟩ := h
  exact Pipeline.wellBuilt_ofQuery hp

theorem extends_query (h : (c.query q params).Yields n t k)
    (hnot : ¬ Pipeline.Totals q.groupKeys q.projection) :
    Extends n k (Pipeline.ofSource (c.setting params) q.source).term t := by
  simp only [query, yields_bind, yields_pure] at h
  obtain ⟨p, j, hp, rfl, rfl⟩ := h
  exact Pipeline.extends_ofQuery hp hnot

theorem extends_updateAll {updates : List Expr}
    (h : (c.updateAll q params updates).Yields n t k) :
    Extends n k (Pipeline.ofSource (c.setting params) q.source).term t := by
  simp only [updateAll, yields_bind] at h
  obtain ⟨p, j, hp, ht⟩ := h
  exact (Pipeline.extends_writeScope hp).trans (Setting.extends_updateAllTerm ht)

theorem extends_deleteAll (h : (c.deleteAll q params).Yields n t k) :
    Extends n k (Pipeline.ofSource (c.setting params) q.source).term t := by
  simp only [deleteAll, yields_bind, yields_pure] at h
  obtain ⟨p, j, hp, rfl, rfl⟩ := h
  exact (Pipeline.extends_writeScope hp).trans (Setting.extends_deleteAllTerm p)

end Compiler

/-- Closed, without rebinding, and over numbers that were drawn before `next`. -/
structure Term.Hygienic (next : Nat) (t : Term) : Prop where
  closed : t.WellScoped []
  drawn : ∀ b ∈ t.binders, b < next

theorem Term.WellBuilt.hygienic {next : Nat} {t : Term} (h : t.WellBuilt [] next) :
    t.Hygienic next :=
  ⟨h.closed, h.below⟩

theorem Term.Extends.hygienic_of_source {s : Setting} {source : Source} {n k : Nat} {t : Term}
    (h : Extends n k (Pipeline.ofSource s source).term t) : t.Hygienic k ∧ t.binders.Nodup := by
  have hbase : (Pipeline.ofSource s source).term.WellBuilt [] n := Pipeline.wellBuilt_table _ _
  refine ⟨(h.wellBuilt hbase).hygienic, h.nodup hbase ?_⟩
  rw [Pipeline.ofSource, Pipeline.binders_table]
  exact List.nodup_nil

/-- After any calls in any order the term of a session is hygienic, and no
number is bound twice unless a total was projected. The same holds of compiled
queries, and of writes by query, which never project. -/
theorem hygienic_terms :
    (∀ (s : Setting) (source : Source) (stages : List Stage),
      ((Session.start s source).run s stages).pipeline.term.Hygienic
          ((Session.start s source).run s stages).next ∧
        (Session.AvoidsTotals s (Session.start s source) stages →
          ((Session.start s source).run s stages).pipeline.term.binders.Nodup)) ∧
    (∀ (c : Compiler) (q : Query) (params : Params) (t : Term),
      c.compileQuery q params = .ok t → ∃ next, (c.query q params).Yields 1 t next ∧
        t.Hygienic next ∧ (¬ Pipeline.Totals q.groupKeys q.projection → t.binders.Nodup)) ∧
    (∀ (c : Compiler) (q : Query) (params : Params) (updates : List Expr) (t : Term),
      c.compileUpdateAll q params updates = .ok t →
        ∃ next, (c.updateAll q params updates).Yields 1 t next ∧
          t.Hygienic next ∧ t.binders.Nodup) ∧
    (∀ (c : Compiler) (q : Query) (params : Params) (t : Term),
      c.compileDeleteAll q params = .ok t →
        ∃ next, (c.deleteAll q params).Yields 1 t next ∧ t.Hygienic next ∧ t.binders.Nodup) := by
  refine ⟨fun s source stages => ?_, fun c q params t h => ?_, fun c q params updates t h => ?_,
    fun c q params t h => ?_⟩
  · have hstart : (Session.start s source).WellBuilt := Session.wellBuilt_start source
    refine ⟨(Session.wellBuilt_run hstart stages).hygienic, Session.nodup_run hstart ?_⟩
    rw [Session.start, Pipeline.ofSource, Pipeline.binders_table]
    exact List.nodup_nil
  · obtain ⟨next, ht⟩ := outcome_eq_ok.mp h
    refine ⟨next, ht, (Compiler.wellBuilt_query ht).hygienic, fun hnot => ?_⟩
    exact (Compiler.extends_query ht hnot).hygienic_of_source.2
  · obtain ⟨next, ht⟩ := outcome_eq_ok.mp h
    exact ⟨next, ht, (Compiler.extends_updateAll ht).hygienic_of_source⟩
  · obtain ⟨next, ht⟩ := outcome_eq_ok.mp h
    exact ⟨next, ht, (Compiler.extends_deleteAll ht).hygienic_of_source⟩

/-- Two filters with a rejected call between them, a query, an update and a
delete, each with the filter. -/
theorem hygienic_terms_of_live_posts :
    let posts : Source := ⟨"posts", none⟩
    let live : Expr := .field 0 "live"
    let q : Query := { source := posts, filters := [live] }
    let stages : List Stage := [.filters [live], .having [live], .filters [live]]
    Session.AvoidsTotals {} (Session.start {} posts) stages ∧
      ((Session.start {} posts).run {} stages).pipeline.term.binders.Nodup ∧
      (∃ t next, ({} : Compiler).compileQuery q [] = .ok t ∧ t.Hygienic next ∧
        t.binders.Nodup) ∧
      (∃ t next, ({} : Compiler).compileUpdateAll q [] [.update .set "seen" live] = .ok t ∧
        t.Hygienic next ∧ t.binders.Nodup) ∧
      ∃ t next, ({} : Compiler).compileDeleteAll q [] = .ok t ∧ t.Hygienic next ∧
        t.binders.Nodup := by
  intro posts live q stages
  obtain ⟨hsession, hquery, hupdate, hdelete⟩ := hygienic_terms
  have havoids : Session.AvoidsTotals {} (Session.start {} posts) stages :=
    ⟨False.elim, False.elim, False.elim, trivial⟩
  have hnot : ¬ Pipeline.Totals q.groupKeys q.projection := fun h => Bool.false_ne_true h.2
  refine ⟨havoids, (hsession {} posts stages).2 havoids, ?_, ?_, ?_⟩
  · obtain ⟨next, -, hygienic, hnodup⟩ := hquery {} q [] _ rfl
    exact ⟨_, next, rfl, hygienic, hnodup hnot⟩
  · obtain ⟨next, -, hygienic⟩ := hupdate {} q [] [.update .set "seen" live] _ rfl
    exact ⟨_, next, rfl, hygienic⟩
  · obtain ⟨next, -, hygienic⟩ := hdelete {} q [] _ rfl
    exact ⟨_, next, rfl, hygienic⟩

end DocQuery
