import DocQuery.Proofs.Pipeline.Writes

/-!
# The rows that a bulk write touches

A write over a query and the query for its rows are compiled by two paths. The
path of the write stops after the filters; the path of the query goes on through
eight more clauses, which are all absent. Both are one compilation: they draw the
same numbers, are refused for the same reasons and yield the same term.
-/

namespace DocQuery

open Compile

/-- What comes after a compilation changes nothing if it returns whatever is
yielded. -/
theorem Compile.bind_eq_self {α : Type} {m : Compile α} {f : α → Compile α}
    (h : ∀ n a k, m.Yields n a k → f a = pure a) : m >>= f = m := by
  have hrun (n : Nat) : (m >>= f).runFrom n = m.runFrom n := by
    rw [runFrom_bind]
    rcases hm : m.runFrom n with ⟨r | a, k⟩
    · rfl
    · simp only [h n a k hm, runFrom_pure]
  exact ExceptT.ext (funext hrun)

/-- The query for the rows that a write over a query touches. -/
def Query.rows (q : Query) : Query := { source := q.source, filters := q.filters }

namespace Pipeline

variable {s : Setting} {p : Pipeline}

/-- Nothing is left to do for the rows of a single table. -/
theorem select_single (hgrouped : p.groupKeys = []) (hwidth : p.width = 1) :
    p.select s (.entity 0) [] = pure p := by
  have hflat : p.flattened = pure p := by
    rw [flattened, if_neg (by rw [isGrouped_eq_false.mpr hgrouped]; decide)]
  show p.selectEntity 0 = pure p
  rw [selectEntity, if_neg (by omega), hflat, pure_bind, if_pos hwidth]

theorem ofQuery_rows (q : Query) :
    ofQuery s q.rows = (ofSource s q.source).filterAll s q.filters := by
  rw [ofQuery_eq (by nofun)]
  refine (pure_bind _ _).trans (bind_eq_self fun n p k hp => ?_)
  obtain ⟨hrelations, hkeys⟩ := sameElements_filterAll hp
  have hwidth : p.width = 1 := by rw [width, hrelations]; rfl
  simp only [groupBy, having, orderBy, offset, limit, counted, Query.rows, List.isEmpty_nil,
    if_true, pure_bind]
  rw [select_single hkeys hwidth]
  rfl

/-- A write that has no clause too many reads the rows of its query. -/
theorem writeScope_eq_ofQuery {q : Query} (h : clauseNotForWrites? q = none) :
    writeScope s q = ofQuery s q.rows := by
  rw [writeScope, h, ofQuery_rows]

end Pipeline

namespace Compiler

variable {c : Compiler} {q : Query} {params : Params} {updates : List Expr} {n k : Nat} {t : Term}

theorem deleteAll_eq (h : Pipeline.clauseNotForWrites? q = none) :
    c.deleteAll q params =
      (fun rows => Term.op .delete [rows] (c.config.writeOptions false)) <$>
        c.query q.rows params := by
  rw [deleteAll, query, Pipeline.writeScope_eq_ofQuery h, map_bind]
  refine bind_congr fun p => ?_
  rw [map_pure]
  exact congrArg pure (c.config.withWriteOptions_eq false .delete [p.term])

/-- The patch is compiled after the rows and numbered after them. -/
theorem updateAll_eq (h : Pipeline.clauseNotForWrites? q = none) :
    c.updateAll q params updates = (do
      let rows ← c.query q.rows params
      if updates.isEmpty then throw .noUpdates
      else
        let f ← lambda ((c.setting params).patch updates)
        return Term.op .update [rows, f] (c.config.writeOptions false)) := by
  rw [updateAll, query, Pipeline.writeScope_eq_ofQuery h, bind_assoc]
  refine bind_congr fun p => ?_
  rw [pure_bind, Setting.updateAllTerm]
  split_ifs
  · rfl
  · refine bind_congr fun f => ?_
    exact congrArg pure (c.config.withWriteOptions_eq false .update [p.term, f])

theorem compileDeleteAll_eq (h : Pipeline.clauseNotForWrites? q = none) :
    c.compileDeleteAll q params = (c.compileQuery q.rows params).map fun rows =>
      .op .delete [rows] (c.config.writeOptions false) := by
  rw [compileDeleteAll, deleteAll_eq h, outcome_map]
  rfl

/-- The rows of an update are those of the query, and its patch is a function of
one row. -/
theorem compileUpdateAll_ok (h : Pipeline.clauseNotForWrites? q = none)
    (ht : c.compileUpdateAll q params updates = .ok t) :
    ∃ rows v patch, c.compileQuery q.rows params = .ok rows ∧
      t = .op .update [rows, .func [v] patch] (c.config.writeOptions false) := by
  rw [compileUpdateAll, updateAll_eq h] at ht
  obtain ⟨k, hk⟩ := outcome_eq_ok.mp ht
  obtain ⟨rows, n, hrows, hk⟩ := yields_bind.mp hk
  split_ifs at hk
  · exact absurd hk not_yields_throw
  · obtain ⟨f, m, hf, ht⟩ := yields_bind.mp hk
    obtain ⟨patch, -, rfl⟩ := yields_lambda.mp hf
    obtain ⟨rfl, -⟩ := yields_pure.mp ht
    exact ⟨rows, n, patch, outcome_eq_ok.mpr ⟨n, hrows⟩, rfl⟩

theorem compileUpdateAll_error {r : Rejection} (h : Pipeline.clauseNotForWrites? q = none)
    (hr : c.compileQuery q.rows params = .error r) :
    c.compileUpdateAll q params updates = .error r := by
  rw [compileUpdateAll, updateAll_eq h]
  exact outcome_bind_of_error hr

end Compiler

/-- A write over a query that has a source and filters only touches the rows that
the query reads: what it deletes or updates is the compiled query, and what
refuses the query refuses the write for the same reason. -/
theorem bulkWrites_touch_rows (c : Compiler) (source : Source) (filters : List Expr)
    (params : Params) :
    c.compileDeleteAll { source, filters } params =
      (c.compileQuery { source, filters } params).map
        (fun rows => .op .delete [rows] (c.config.writeOptions false)) ∧
    ∀ updates : List Expr,
      (∀ t, c.compileUpdateAll { source, filters } params updates = .ok t →
        ∃ rows v patch, c.compileQuery { source, filters } params = .ok rows ∧
          t = .op .update [rows, .func [v] patch] (c.config.writeOptions false)) ∧
      ∀ r, c.compileQuery { source, filters } params = .error r →
        c.compileUpdateAll { source, filters } params updates = .error r := by
  have hclauses : Pipeline.clauseNotForWrites? { source, filters } = none := rfl
  refine ⟨Compiler.compileDeleteAll_eq hclauses, fun updates => ⟨fun t ht => ?_, fun r hr => ?_⟩⟩
  · obtain ⟨rows, v, patch, hrows, rfl⟩ := Compiler.compileUpdateAll_ok hclauses ht
    exact ⟨rows, v, patch, hrows, rfl⟩
  · exact Compiler.compileUpdateAll_error hclauses hr

/-- Drafts are published where they are read, and a second relation is not there
to be read or written. -/
theorem bulkWrites_touch_rows_of_drafts :
    let posts : Source := ⟨"posts", some "Post"⟩
    let drafts : List Expr := [.compare .eq (.field 0 "draft") (.param 0)]
    let stray : List Expr := [.field 1 "draft"]
    let publish : List Expr := [.update .set "draft" (.literal (.bool false))]
    let c : Compiler := { config := { durability := .soft } }
    (∃ t rows v patch, c.compileUpdateAll { source := posts, filters := drafts } [.bool true]
        publish = .ok t ∧
      c.compileQuery { source := posts, filters := drafts } [.bool true] = .ok rows ∧
        t = .op .update [rows, .func [v] patch] [("durability", .string "soft")]) ∧
    c.compileQuery { source := posts, filters := stray } [] = .error (.unboundRelation 1) ∧
      c.compileUpdateAll { source := posts, filters := stray } [] publish =
        .error (.unboundRelation 1) := by
  intro posts drafts stray publish c
  obtain ⟨-, hdrafts⟩ := bulkWrites_touch_rows c posts drafts [.bool true]
  obtain ⟨-, hstray⟩ := bulkWrites_touch_rows c posts stray []
  obtain ⟨rows, v, patch, hrows, ht⟩ := (hdrafts publish).1 _ rfl
  exact ⟨⟨_, rows, v, patch, rfl, hrows, ht⟩, rfl, (hstray publish).2 _ rfl⟩

end DocQuery
