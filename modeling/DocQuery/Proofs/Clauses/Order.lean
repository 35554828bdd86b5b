import DocQuery.Proofs.Clauses.Totals

/-!
# The order of the clauses

A compiled query is, along first arguments, the operations of its clauses in
their fixed order and nothing else. Where the projection is a total, the same
holds of the sequence that every aggregate call ranges over.
-/

namespace DocQuery

/-- The term with repeated rows removed if that is asked for. -/
def Distinct.around (t : Term) : Distinct → Term
  | .flag true => t.distinct
  | _ => t

/-- What a total makes of its value: one row where several values are asked for,
and else the value as it is, which has no rows to be distinct. -/
def Query.totalTerm (q : Query) (value : Term) : Term :=
  if Pipeline.isRowShape q.projection then q.distinct.around (.makeArray [value]) else value

theorem Term.Follows.around {s : Setting} {ops : List Operation} {t : Term}
    (h : t.Follows s ops) (d : Distinct) :
    (d.around t).Follows s (Operation.distinct d ++ ops) := by
  cases d with
  | off | byExpr => exact h
  | flag on =>
      cases on with
      | false => exact h
      | true => exact h.op (o := .bare .distinct) rfl Term.Kind.noConfusion rfl

namespace Pipeline

open Compile

variable {s : Setting} {relations : List (Option String)} {keys : List Expr}
  {ops : List Operation} {p p' : Pipeline} {n k : Nat}

theorem Built.select (h : p.Built s relations keys ops) {e : Expr} {preloads : List Nat}
    (hnot : ¬ Totals keys e) (hp' : (p.select s e preloads).Yields n p' k) :
    ∃ keys', p'.Built s relations keys'
      (Operation.projection keys relations.length e preloads ++ ops) := by
  rcases hs : shape? e preloads with _ | shape
  · obtain ⟨r, rfl, rfl⟩ := shape?_eq_none.mp hs
    exact ⟨[], h.selectEntity hp'⟩
  · rw [select_of_shape hs] at hp'
    rw [Operation.projection, hs]
    rcases yields_selectShape.mp hp' with ⟨htotal, -⟩ | ⟨-, f, hf, rfl⟩
    · rw [containsAggregate_of_shape hs, Bool.and_eq_true, Bool.not_eq_true',
        isGrouped_eq_false, h.groupKeys_eq] at htotal
      exact absurd htotal hnot
    · exact ⟨keys, h.mapTerm (o := .each .map _ _) rfl Term.Kind.noConfusion
        ⟨f, h.elementFunc hf, rfl⟩⟩

/-- A query is built up to its projection. -/
theorem built_beforeSelect {q : Query} (h : (beforeSelect s q).Yields n p k) :
    p.Built s q.relations q.groupKeys q.rowOperations := by
  rw [beforeSelect] at h
  simp only [yields_bind] at h
  obtain ⟨p₁, n₁, h₁, p₂, n₂, h₂, p₃, n₃, h₃, p₄, n₄, h₄, p₅, n₅, h₅, p₆, n₆, h₆, h₇⟩ := h
  have hjoins : p₁.Built s q.relations [] _ := (Built.ofSource q.source).joins h₁
  have hgroups := (hjoins.filterAll h₂).groupBy h₃
  have hordered := (hgroups.having h₄).orderBy h₅
  have hskipped := hordered.counted .skip (by decide) h₆
  have hcounted := hskipped.counted .limit (by decide) h₇
  rw [q.length_relations] at hcounted
  exact hcounted

/-- Then come the projection and distinct. -/
theorem built_ofQuery {q : Query} (h : (ofQuery s q).Yields n p k) :
    ∃ (before after : Pipeline) (m j : Nat),
      before.Built s q.relations q.groupKeys q.rowOperations ∧
        (before.select s q.projection q.preloads).Yields m after j ∧
          (after.distinct q.distinct).Yields j p k := by
  obtain ⟨-, before, after, m, j, hbefore, hselect, hdistinct⟩ := yields_ofQuery_iff.mp h
  exact ⟨before, after, m, j, built_beforeSelect hbefore, hselect, hdistinct⟩

theorem term_distinct {d : Distinct} (h : (p.distinct d).Yields n p' k) :
    p'.term = if p.scalar then p.term else d.around p.term := by
  obtain ⟨-, hp'⟩ := yields_distinct.mp h
  cases d with
  | off =>
      rw [hp']
      exact (ite_self _).symm
  | flag on =>
      cases on with
      | false =>
          rw [hp']
          exact (ite_self _).symm
      | true =>
          rw [hp']
          split_ifs <;> rfl
  | byExpr e => exact hp'.elim

/-- The reductions of a total are the aggregate calls of the projection. -/
theorem Built.selectTotal (h : p.Built s relations [] ops) {q : Query} {after : Pipeline}
    {m j : Nat} (hagg : q.projection.containsAggregate)
    (hselect : (p.select s q.projection q.preloads).Yields n after m)
    (hdistinct : (after.distinct q.distinct).Yields j p' k) :
    ∃ value, p'.term = q.totalTerm value ∧
      Expr.FoldEach s p.term relations.length q.projection.aggregateCalls value.reductions := by
  obtain ⟨shape, hs⟩ : ∃ shape, shape? q.projection q.preloads = some shape := by
    rw [← Option.ne_none_iff_exists']
    intro hnone
    obtain ⟨r, hr, -⟩ := shape?_eq_none.mp hnone
    rw [hr] at hagg
    exact Bool.false_ne_true hagg
  rw [select_of_shape hs] at hselect
  have hungrouped : p.isGrouped = false := isGrouped_eq_false.mpr h.groupKeys_eq
  have hshape : shape.containsAggregate := (containsAggregate_of_shape hs).trans hagg
  rcases yields_selectShape.mp hselect with ⟨-, htotal⟩ | ⟨hnot, -⟩
  · obtain ⟨value, hvalue, rfl⟩ := yields_selectTotal.mp htotal
    have hfold := Expr.foldEach_of_yields hvalue
    rw [aggregateCalls_of_shape hs, h.width_eq] at hfold
    refine ⟨value, ?_, hfold⟩
    rw [term_distinct hdistinct, Query.totalTerm, ← isRowShape_of_shape hs hagg]
    -- one row is a sequence again, any other value is a scalar
    cases isRowShape shape with
    | true => simp [h.scalar_eq]
    | false => simp
  · rw [hungrouped, hshape] at hnot
    exact absurd hnot.symm Bool.false_ne_true

end Pipeline

theorem Compiler.compileQuery_eq_ok_iff {c : Compiler} {q : Query} {params : Params} {t : Term} :
    c.compileQuery q params = .ok t ↔
      ∃ p k, (Pipeline.ofQuery (c.setting params) q).Yields 1 p k ∧ t = p.term := by
  simp only [compileQuery, Compile.outcome_eq_ok, query, Compile.yields_bind, Compile.yields_pure]
  constructor
  · rintro ⟨k, p, _, hp, ht, rfl⟩
    exact ⟨p, k, hp, ht⟩
  · rintro ⟨p, k, hp, ht⟩
    exact ⟨k, p, k, hp, ht, rfl⟩

/-- A compiled query is the operations of its clauses, each of them where the
clause is there and none besides, from distinct down to the table of the source.
Of a total this holds from the limit inward: the reductions in its value are the
aggregate calls of the projection, all of them over that one sequence. -/
theorem clauses_in_order (c : Compiler) (q : Query) (params : Params) (t : Term)
    (h : c.compileQuery q params = .ok t) :
    (¬ Pipeline.Totals q.groupKeys q.projection → t.Follows (c.setting params) q.operations) ∧
      (Pipeline.Totals q.groupKeys q.projection →
        ∃ rows value, rows.Follows (c.setting params) q.rowOperations ∧ t = q.totalTerm value ∧
          Expr.FoldEach (c.setting params) rows q.width q.projection.aggregateCalls
            value.reductions) := by
  obtain ⟨k, hk⟩ := Compile.outcome_eq_ok.mp h
  rw [Compiler.query, Compile.yields_bind] at hk
  obtain ⟨p, j, hp, ht⟩ := hk
  obtain ⟨rfl, -⟩ := Compile.yields_pure.mp ht
  obtain ⟨before, after, m, i, hbefore, hselect, hdistinct⟩ := Pipeline.built_ofQuery hp
  constructor
  · intro hnot
    obtain ⟨keys, hafter⟩ := hbefore.select hnot hselect
    rw [q.length_relations] at hafter
    rw [Pipeline.term_distinct hdistinct, hafter.scalar_eq]
    exact hafter.follows.around q.distinct
  · rintro ⟨hkeys, hagg⟩
    rw [hkeys] at hbefore
    obtain ⟨value, hterm, hfold⟩ := hbefore.selectTotal hagg hselect hdistinct
    rw [q.length_relations] at hfold
    exact ⟨before.term, value, hbefore.follows, hterm, hfold⟩

/-- Posts with their authors and comments, once with every clause and once for
two aggregates over ten of them. -/
theorem clauses_in_order_of_posts :
    let users : Source := ⟨"users", some "User"⟩
    let posts : Source := ⟨"posts", some "Post"⟩
    let author : Association := .declare .belongsTo "author" "User" "author_id"
    let user : Schema := { name := "User", table := "users" }
    let post : Schema := { name := "Post", table := "posts", associations := [author] }
    let c : Compiler := { catalog := .ofSchemas [user, post] }
    let joins : List Join :=
      [⟨users, .literal (.bool true)⟩,
       ⟨⟨"comments", none⟩, .compare .eq (.field 2 "post_id") (.field 0 "id")⟩]
    let count : Expr := .aggregate .count (.entity 0) false
    let busy : Query := {
      source := posts, joins, filters := [.field 0 "live"], groupKeys := [.field 1 "name"]
      having := [.compare .gt count (.literal (.int 1))], order := [⟨.descending, count⟩]
      offset := some (.literal (.int 1)), limit := some (.literal (.int 10))
      projection := .entity 0, distinct := .flag true }
    let totals : Query := {
      source := posts, joins, limit := some (.literal (.int 10))
      projection := .list [count, .aggregate .max (.field 0 "views") true] }
    (∃ t, c.compileQuery busy [] = .ok t ∧ ¬ Pipeline.Totals busy.groupKeys busy.projection ∧
      t.chain.map (·.1) =
        [.distinct, .map, .concatMap, .limit, .skip, .orderBy, .filter, .ungroup, .group,
         .filter, .map, .innerJoin, .map, .eqJoin, .table]) ∧
      ∃ t, c.compileQuery totals [] = .ok t ∧
        Pipeline.Totals totals.groupKeys totals.projection ∧
          ∃ rows value, t = .makeArray [value] ∧
            rows.chain.map (·.1) = [.limit, .map, .innerJoin, .map, .eqJoin, .table] ∧
              Expr.FoldEach (c.setting []) rows 3
                [count, .aggregate .max (.field 0 "views") true] value.reductions := by
  intro users posts author user post c joins count busy totals
  have hnot : ¬ Pipeline.Totals busy.groupKeys busy.projection := fun h => Bool.false_ne_true h.2
  have htotals : Pipeline.Totals totals.groupKeys totals.projection := ⟨rfl, rfl⟩
  refine ⟨⟨_, rfl, hnot, ?_⟩, _, rfl, htotals, ?_⟩
  · exact ((clauses_in_order c busy [] _ rfl).1 hnot).kinds_eq
  · obtain ⟨rows, value, hrows, hterm, hfold⟩ :=
      (clauses_in_order c totals [] _ rfl).2 htotals
    exact ⟨rows, value, hterm, hrows.kinds_eq, hfold⟩

end DocQuery
