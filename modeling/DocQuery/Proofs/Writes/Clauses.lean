import DocQuery.Proofs.Acceptance.Query
import DocQuery.Proofs.Pipeline.Writes

/-!
# The clauses that a bulk write may have

A write over a query is refused for every clause that has a say in which rows there
are, the source and the filters apart. The clauses that shape the output are not
looked at: with any projection, distinct and preloads the write is the same.
-/

namespace DocQuery

open Compile

/-- Of the clauses that decide which rows there are, the source and the filters
only are given. -/
structure Query.FiltersOnly (q : Query) : Prop where
  joins : q.joins = []
  groupKeys : q.groupKeys = []
  having : q.having = []
  order : q.order = []
  offset : q.offset = none
  limit : q.limit = none

namespace Pipeline

variable {s : Setting} {q : Query}

theorem clauseNotForWrites?_eq_none_iff : clauseNotForWrites? q = none ↔ q.FiltersOnly := by
  constructor
  · intro h
    simp only [clauseNotForWrites?] at h
    split_ifs at h with hjoins hkeys hhaving horder hoffset hlimit
    exact ⟨by simpa using hjoins, by simpa using hkeys, by simpa using hhaving,
      by simpa using horder, by simpa using hoffset, by simpa using hlimit⟩
  · rintro ⟨hjoins, hkeys, hhaving, horder, hoffset, hlimit⟩
    simp [clauseNotForWrites?, hjoins, hkeys, hhaving, horder, hoffset, hlimit]

/-- The rows of a write are those of one table, so its conditions see one relation. -/
theorem acceptedIff_writeScope (q : Query) :
    (writeScope s q).AcceptedIff
      (q.FiltersOnly ∧ ∀ e ∈ q.filters, e.FitsRow s.engine s.params 1) := by
  intro n
  have hfilters := acceptedIff_filterAll (s := s) (p := ofSource s q.source) rfl q.filters n
  simp only [yields_writeScope, clauseNotForWrites?_eq_none_iff, exists_and_left]
  exact and_congr_right fun _ => hfilters

end Pipeline

namespace Compiler

variable {c : Compiler} {q : Query} {params : Params}

theorem compileDeleteAll_ok_iff :
    (∃ t, c.compileDeleteAll q params = .ok t) ↔
      q.FiltersOnly ∧ ∀ e ∈ q.filters, e.FitsRow c.engine params 1 := by
  have haccepted : (c.deleteAll q params).AcceptedIff
      (q.FiltersOnly ∧ ∀ e ∈ q.filters, e.FitsRow c.engine params 1) :=
    (Pipeline.acceptedIff_writeScope q).bind_pure
  rw [← haccepted 1]
  simp only [compileDeleteAll, outcome_eq_ok]

theorem filtersOnly_of_compileUpdateAll {updates : List Expr} {t : Term}
    (h : c.compileUpdateAll q params updates = .ok t) :
    q.FiltersOnly ∧ ∀ e ∈ q.filters, e.FitsRow c.engine params 1 := by
  obtain ⟨k, hk⟩ := outcome_eq_ok.mp h
  obtain ⟨p, n, hp, -⟩ := yields_bind.mp hk
  exact (Pipeline.acceptedIff_writeScope q 1).mp ⟨p, n, hp⟩

end Compiler

/-- A write that is accepted is over a query of one table and conditions on its
rows; a deletion needs nothing more. What the query would put out makes no
difference to a write. -/
theorem bulkWrites_filter_only (c : Compiler) (q : Query) (params : Params) :
    ((∃ t, c.compileDeleteAll q params = .ok t) ↔
      q.FiltersOnly ∧ ∀ e ∈ q.filters, e.FitsRow c.engine params 1) ∧
    (∀ updates t, c.compileUpdateAll q params updates = .ok t →
      q.FiltersOnly ∧ ∀ e ∈ q.filters, e.FitsRow c.engine params 1) ∧
    ∀ projection distinct preloads,
      c.compileDeleteAll { q with projection, distinct, preloads } params =
        c.compileDeleteAll q params ∧
      ∀ updates, c.compileUpdateAll { q with projection, distinct, preloads } params updates =
        c.compileUpdateAll q params updates :=
  ⟨Compiler.compileDeleteAll_ok_iff, fun _ _ h => Compiler.filtersOnly_of_compileUpdateAll h,
    fun _ _ _ => ⟨rfl, fun _ => rfl⟩⟩

/-- Drafts are published; a limit on them is refused. -/
theorem bulkWrites_filter_only_of_drafts :
    let drafts : Query := {
      source := ⟨"posts", some "Post"⟩, filters := [.compare .eq (.field 0 "draft") (.param 0)] }
    let publish : List Expr := [.update .set "draft" (.literal (.bool false))]
    let c : Compiler := {}
    (∃ t, c.compileUpdateAll drafts [.bool true] publish = .ok t) ∧ drafts.FiltersOnly ∧
      ¬ ∃ t, c.compileDeleteAll { drafts with limit := some (.literal (.int 1)) } [.bool true] =
        .ok t := by
  intro drafts publish c
  obtain ⟨-, hupdate, -⟩ := bulkWrites_filter_only c drafts [.bool true]
  obtain ⟨hdelete, -, -⟩ :=
    bulkWrites_filter_only c { drafts with limit := some (.literal (.int 1)) } [.bool true]
  refine ⟨⟨_, rfl⟩, (hupdate publish _ rfl).1, fun h => ?_⟩
  cases (hdelete.mp h).1.limit

/-- A deletion that asks for distinct ids and a relation that is not there deletes
every row of the table. -/
theorem deleteAll_not_refused_of_output :
    let q : Query := {
      source := ⟨"posts", none⟩, projection := .field 0 "id", distinct := .flag true
      preloads := [1] }
    let c : Compiler := {}
    c.compileDeleteAll q [] = .ok (Term.table none "posts").delete ∧
      q.projection ≠ .entity 0 ∧ q.distinct ≠ .off ∧ q.distinct ≠ .flag false ∧
        q.preloads ≠ [] :=
  ⟨rfl, nofun, nofun, nofun, nofun⟩

end DocQuery
