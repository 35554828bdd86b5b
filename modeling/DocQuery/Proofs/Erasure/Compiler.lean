import DocQuery.Proofs.Erasure.Expr
import DocQuery.Proofs.Pipeline.Writes

/-!
# Parameters do not change the structure of a pipeline

Clause by clause, two compilations of one query with different parameters run in
step. No clause looks at a parameter to decide what it builds, so nothing has to
be assumed about them: where both compilations succeed, the terms are the same
up to their data.
-/

namespace DocQuery

open Compile Term

namespace Pipeline

/-- A pipeline with the data of its term erased. -/
def erase (p : Pipeline) : Pipeline := p.mapTerm Term.erase

theorem erase_eq_iff {p p' : Pipeline} :
    p.erase = p'.erase ↔ p.term.erase = p'.term.erase ∧ p.relations = p'.relations ∧
      p.groupKeys = p'.groupKeys ∧ p.scalar = p'.scalar := by
  obtain ⟨term, relations, groupKeys, scalar⟩ := p
  obtain ⟨term', relations', groupKeys', scalar'⟩ := p'
  simp [erase, mapTerm]

variable {c : Compiler} {ps ps' : Params} {p p' : Pipeline}

theorem width_eq_of_erase_eq (h : p.erase = p'.erase) : p.width = p'.width := by
  rw [width, width, (erase_eq_iff.mp h).2.1]

theorem isGrouped_eq_of_erase_eq (h : p.erase = p'.erase) : p.isGrouped = p'.isGrouped := by
  rw [isGrouped, isGrouped, (erase_eq_iff.mp h).2.2.1]

theorem elementScope_eq_of_erase_eq (h : p.erase = p'.erase) :
    p.elementScope = p'.elementScope := by
  obtain ⟨-, -, hkeys, -⟩ := erase_eq_iff.mp h
  funext element
  rw [elementScope, elementScope, isGrouped_eq_of_erase_eq h, width_eq_of_erase_eq h, hkeys]

theorem inStep_elementFunc (h : p.erase = p'.erase) (e : Expr) :
    InStep Term.erase (p.elementFunc (c.setting ps) e) (p'.elementFunc (c.setting ps') e) := by
  simp only [elementFunc, elementScope_eq_of_erase_eq h]
  exact .lambda fun n => Expr.inStep_compile e (.refl _)

/-- A clause that puts one more operation around the term. -/
theorem erase_mapTerm {f f' : Term → Term} (h : p.erase = p'.erase)
    (hf : p.term.erase = p'.term.erase → (f p.term).erase = (f' p'.term).erase) :
    (p.mapTerm f).erase = (p'.mapTerm f').erase := by
  obtain ⟨hterm, hrest⟩ := erase_eq_iff.mp h
  exact erase_eq_iff.mpr ⟨hf hterm, hrest⟩

theorem inStep_filterAll (h : p.erase = p'.erase) (conditions : List Expr) :
    InStep erase (p.filterAll (c.setting ps) conditions)
      (p'.filterAll (c.setting ps') conditions) := by
  rw [filterAll, filterAll]
  split_ifs
  · exact inStep_pure h
  · refine (inStep_elementFunc h _).bind fun f f' hf => inStep_pure (erase_mapTerm h ?_)
    intro hterm
    simp [Term.filter, hterm, hf]

theorem inStep_groupBy (h : p.erase = p'.erase) (keys : List Expr) :
    InStep erase (p.groupBy (c.setting ps) keys) (p'.groupBy (c.setting ps') keys) := by
  obtain ⟨hterm, hrel, -, hscalar⟩ := erase_eq_iff.mp h
  rw [groupBy, groupBy]
  split_ifs
  · exact inStep_pure h
  · refine (inStep_elementFunc h _).bind fun f f' hf => inStep_pure (erase_eq_iff.mpr ?_)
    exact ⟨by simp [Term.group, Term.ungroup, hterm, hf], hrel, rfl, hscalar⟩

theorem inStep_having (h : p.erase = p'.erase) (conditions : List Expr) :
    InStep erase (p.having (c.setting ps) conditions) (p'.having (c.setting ps') conditions) := by
  rw [having, having, isGrouped_eq_of_erase_eq h]
  split_ifs
  · exact inStep_pure h
  · exact inStep_throw
  · exact inStep_filterAll h conditions

theorem inStep_orderBy (h : p.erase = p'.erase) (order : List OrderTerm) :
    InStep erase (p.orderBy (c.setting ps) order) (p'.orderBy (c.setting ps') order) := by
  have hkey (o : OrderTerm) :
      InStep Term.erase (p.orderKey (c.setting ps) o) (p'.orderKey (c.setting ps') o) := by
    refine (inStep_elementFunc h o.key).bind fun f f' hf => ?_
    cases o.direction with
    | ascending => exact inStep_pure (by simp [Term.asc, hf])
    | descending => exact inStep_pure (by simp [Term.desc, hf])
  rw [orderBy, orderBy]
  split_ifs
  · exact inStep_pure h
  · refine (InStep.mapM fun o _ => hkey o).bind fun ts ts' hts => ?_
    refine inStep_pure (erase_mapTerm h fun hterm => ?_)
    simp [Term.orderBy, hterm, hts]

theorem inStep_counted {clause : String} {op : Term → Term → Term}
    (hop : ∀ {t t' u u' : Term}, t.erase = t'.erase → u.erase = u'.erase →
      (op t u).erase = (op t' u').erase)
    (h : p.erase = p'.erase) (e? : Option Expr) :
    InStep erase (p.counted (c.setting ps) clause op e?)
      (p'.counted (c.setting ps') clause op e?) := by
  cases e? with
  | none => exact inStep_pure h
  | some e =>
      refine (Expr.inStep_compileCount clause e).bind fun t t' ht => ?_
      exact inStep_pure (erase_mapTerm h fun hterm => hop hterm ht)

theorem inStep_offset (h : p.erase = p'.erase) (e? : Option Expr) :
    InStep erase (p.offset (c.setting ps) e?) (p'.offset (c.setting ps') e?) :=
  inStep_counted (fun ht hu => by simp [Term.skip, ht, hu]) h e?

theorem inStep_limit (h : p.erase = p'.erase) (e? : Option Expr) :
    InStep erase (p.limit (c.setting ps) e?) (p'.limit (c.setting ps') e?) :=
  inStep_counted (fun ht hu => by simp [Term.limit, ht, hu]) h e?

theorem inStep_distinct (h : p.erase = p'.erase) (d : Distinct) :
    InStep erase (p.distinct d) (p'.distinct d) := by
  cases d with
  | off => exact inStep_pure h
  | flag on =>
      cases on with
      | false => exact inStep_pure h
      | true =>
          rw [distinct, distinct, (erase_eq_iff.mp h).2.2.2]
          split_ifs
          · exact inStep_pure h
          · refine inStep_pure (erase_mapTerm h fun hterm => ?_)
            simp [Term.distinct, hterm]
  | byExpr e => exact inStep_throw

/-! ## Joins -/

/-- The left key of a link is read at one place of the record whatever the
parameters, and so is the key that the pairs are looked up by. -/
theorem inStep_pairByLink (h : p.erase = p'.erase) (source : Source) :
    InStep Term.erase (p.pairByLink (c.setting ps) source)
      (p'.pairByLink (c.setting ps') source) := by
  obtain ⟨hterm, hrel, -, -⟩ := erase_eq_iff.mp h
  have hresolve : InStep id (liftM (c.catalog.resolve p.relations source) : Compile (Nat × Link))
      (liftM (c.catalog.resolve p'.relations source)) := by
    refine inStep_lift fun b b' hb hb' => ?_
    rw [hrel, hb'] at hb
    cases hb
    rfl
  rw [pairByLink, pairByLink, width_eq_of_erase_eq h]
  refine hresolve.bind fun b b' hb => ?_
  obtain rfl : b = b' := hb
  obtain ⟨relation, link⟩ := b
  have hkey (row : Term) : InStep Term.erase
      (do return (← Scope.slot row p'.width relation).bracket link.leftKey)
      (do return (← Scope.slot row p'.width relation).bracket link.leftKey) := by
    refine (inStep_lift fun t t' => Scope.erase_slot rfl).bind fun t t' ht => ?_
    exact inStep_pure (by simp [Term.bracket, ht])
  refine (InStep.lambda fun n => hkey _).bind fun f f' hf => ?_
  have hjoined : ((p.term.eqJoin f (table c.config.database source.table))).erase =
      (p'.term.eqJoin f' (table c.config.database source.table)).erase := by
    simp [Term.eqJoin, hterm, hf]
  show InStep _ (if link.rightKey = c.catalog.primaryKey source then _ else _)
    (if link.rightKey = c.catalog.primaryKey source then _ else _)
  split_ifs
  · exact inStep_pure hjoined
  · exact inStep_pure (by simpa [Term.eqJoin, call, withOptarg, Compiler.setting] using hjoined)

theorem inStep_pairByPredicate (h : p.erase = p'.erase) (j : Join) :
    InStep Term.erase (p.pairByPredicate (c.setting ps) j)
      (p'.pairByPredicate (c.setting ps') j) := by
  obtain ⟨hterm, -⟩ := erase_eq_iff.mp h
  rw [pairByPredicate, pairByPredicate, width_eq_of_erase_eq h]
  refine (InStep.lambda₂ fun l r => Expr.inStep_compile _ (.refl _)).bind fun f f' hf => ?_
  refine inStep_pure ?_
  show (p.term.innerJoin (table c.config.database j.source.table) f).erase =
    (p'.term.innerJoin (table c.config.database j.source.table) f').erase
  simp [Term.innerJoin, hterm, hf]

theorem inStep_join (h : p.erase = p'.erase) (j : Join) :
    InStep erase (p.join (c.setting ps) j) (p'.join (c.setting ps') j) := by
  obtain ⟨hterm, hrel, hkeys, hscalar⟩ := erase_eq_iff.mp h
  have hmerge : InStep Term.erase (lambda fun pair => return merge p'.width pair)
      (lambda fun pair => return merge p'.width pair) :=
    .lambda fun n => inStep_pure rfl
  rw [join, join, width_eq_of_erase_eq h]
  split_ifs
  · refine (inStep_pairByLink h j.source).bind fun t t' ht => hmerge.bind fun f f' hf => ?_
    refine inStep_pure (erase_eq_iff.mpr ⟨?_, by rw [hrel], hkeys, hscalar⟩)
    simp [Term.map, ht, hf]
  · refine (inStep_pairByPredicate h j).bind fun t t' ht => hmerge.bind fun f f' hf => ?_
    refine inStep_pure (erase_eq_iff.mpr ⟨?_, by rw [hrel], hkeys, hscalar⟩)
    simp [Term.map, ht, hf]

theorem inStep_joins (h : p.erase = p'.erase) (js : List Join) :
    InStep erase (p.joins (c.setting ps) js) (p'.joins (c.setting ps') js) := by
  induction js generalizing p p' with
  | nil => exact inStep_pure h
  | cons j js ih =>
      rw [joins, joins, List.foldlM_cons, List.foldlM_cons]
      exact (inStep_join h j).bind fun q q' hq => ih hq

/-! ## Projections -/

theorem inStep_flattened (h : p.erase = p'.erase) : InStep erase p.flattened p'.flattened := by
  obtain ⟨hterm, hrel, -, hscalar⟩ := erase_eq_iff.mp h
  have hread : InStep Term.erase (lambda fun group => return group.bracket "reduction")
      (lambda fun group => return group.bracket "reduction") :=
    .lambda fun n => inStep_pure rfl
  rw [flattened, flattened, isGrouped_eq_of_erase_eq h]
  split_ifs
  · refine hread.bind fun f f' hf => inStep_pure (erase_eq_iff.mpr ?_)
    exact ⟨by simp [Term.concatMap, hterm, hf], hrel, rfl, hscalar⟩
  · exact inStep_pure h

theorem inStep_selectEntity (h : p.erase = p'.erase) (r : Nat) :
    InStep erase (p.selectEntity r) (p'.selectEntity r) := by
  rw [selectEntity, selectEntity, width_eq_of_erase_eq h]
  by_cases hr : p'.width ≤ r
  · rw [if_pos hr, if_pos hr]
    exact inStep_throw
  · rw [if_neg hr, if_neg hr]
    refine (inStep_flattened h).bind fun q q' hq => ?_
    rw [width_eq_of_erase_eq hq]
    split_ifs
    · exact inStep_pure hq
    · refine (InStep.lambda fun n => inStep_lift fun t t' => Scope.erase_slot rfl).bind ?_
      refine fun f f' hf => inStep_pure (erase_mapTerm hq fun hterm => ?_)
      simp [Term.map, hterm, hf]

theorem inStep_selectShape (h : p.erase = p'.erase) (shape : Expr) :
    InStep erase (p.selectShape (c.setting ps) shape) (p'.selectShape (c.setting ps') shape) := by
  obtain ⟨hterm, hrel, hkeys, hscalar⟩ := erase_eq_iff.mp h
  rw [selectShape, selectShape, isGrouped_eq_of_erase_eq h]
  split_ifs
  · -- the sequence itself is in the projection, and only its data may differ
    rw [selectTotal, selectTotal, width_eq_of_erase_eq h]
    refine (Expr.inStep_compile shape (.total hterm)).bind fun t t' ht => ?_
    split_ifs
    · exact inStep_pure (erase_eq_iff.mpr ⟨by simp [ht], hrel, hkeys, hscalar⟩)
    · exact inStep_pure (erase_eq_iff.mpr ⟨ht, hrel, hkeys, rfl⟩)
  · refine (inStep_elementFunc h shape).bind fun f f' hf => ?_
    refine inStep_pure (erase_mapTerm h fun hterm => ?_)
    simp [Term.map, hterm, hf]

theorem inStep_select (h : p.erase = p'.erase) (projection : Expr) (preloads : List Nat) :
    InStep erase (p.select (c.setting ps) projection preloads)
      (p'.select (c.setting ps') projection preloads) := by
  rcases hs : shape? projection preloads with _ | shape
  · obtain ⟨r, rfl, rfl⟩ := shape?_eq_none.mp hs
    exact inStep_selectEntity h r
  · rw [select_of_shape hs, select_of_shape hs]
    exact inStep_selectShape h shape

theorem inStep_ofQuery (q : Query) :
    InStep erase (ofQuery (c.setting ps) q) (ofQuery (c.setting ps') q) := by
  by_cases hd : ∃ e, q.distinct = .byExpr e
  · obtain ⟨e, hd⟩ := hd
    rw [ofQuery_byExpr hd]
    exact inStep_throw
  · rw [ofQuery_eq fun e h => hd ⟨e, h⟩, ofQuery_eq fun e h => hd ⟨e, h⟩]
    refine (inStep_joins rfl _).bind fun p₁ p₁' h₁ => ?_
    refine (inStep_filterAll h₁ _).bind fun p₂ p₂' h₂ => ?_
    refine (inStep_groupBy h₂ _).bind fun p₃ p₃' h₃ => ?_
    refine (inStep_having h₃ _).bind fun p₄ p₄' h₄ => ?_
    refine (inStep_orderBy h₄ _).bind fun p₅ p₅' h₅ => ?_
    refine (inStep_offset h₅ _).bind fun p₆ p₆' h₆ => ?_
    refine (inStep_limit h₆ _).bind fun p₇ p₇' h₇ => ?_
    exact (inStep_select h₇ _ _).bind fun p₈ p₈' h₈ => inStep_distinct h₈ _

theorem inStep_writeScope (q : Query) :
    InStep erase (writeScope (c.setting ps) q) (writeScope (c.setting ps') q) := by
  rw [writeScope, writeScope]
  split
  · exact inStep_throw
  · exact inStep_filterAll rfl _

end Pipeline

/-! ## Writes -/

theorem Config.erase_withWriteOptions (c : Config) (isInsert : Bool) {kind : Kind}
    {args args' : List Term} (h : args.map Term.erase = args'.map Term.erase) :
    (c.withWriteOptions isInsert (.call kind args)).erase =
      (c.withWriteOptions isInsert (.call kind args')).erase := by
  obtain ⟨os, -, heq⟩ := c.withWriteOptions_call isInsert kind
  rw [heq, heq, erase_op, erase_op, h]

namespace Compiler

variable {c : Compiler} {ps ps' : Params}

theorem inStep_compileUpdate (row : Term) (e : Expr) :
    InStep (fun entry : String × Term => (entry.1, entry.2.erase)) (e.compileUpdate c.engine ps row)
      (e.compileUpdate c.engine ps' row) := by
  intro n entry entry' k k' h h'
  obtain ⟨op, name, v, value, rfl, hv, rfl⟩ := Expr.yields_compileUpdate.mp h
  -- both runs are of one clause, so they write one field in one way
  obtain ⟨_, _, _, value', heq, hv', rfl⟩ := Expr.yields_compileUpdate.mp h'
  cases heq
  obtain ⟨herase, rfl⟩ := Expr.inStep_compile v (.refl _) n _ _ k k' hv hv'
  refine ⟨?_, rfl⟩
  cases op <;> simp [Expr.patched, Term.binary, Term.append, Term.difference, herase]

theorem inStep_patch (updates : List Expr) (row : Term) :
    InStep Term.erase ((c.setting ps).patch updates row) ((c.setting ps').patch updates row) := by
  rw [Setting.patch, Setting.patch]
  refine (InStep.mapM fun e _ => inStep_compileUpdate row e).bind fun es es' hes => ?_
  -- the names decide about repeats, and they are no data
  have hnames : es.map (·.1) = es'.map (·.1) := by
    have hfst := congrArg (List.map Prod.fst) hes
    rwa [List.map_map, List.map_map] at hfst
  rw [hnames]
  split
  · exact inStep_throw
  · exact inStep_pure (by simp [hes])

theorem inStep_updateAll (q : Query) (updates : List Expr) :
    InStep Term.erase (c.updateAll q ps updates) (c.updateAll q ps' updates) := by
  refine (Pipeline.inStep_writeScope q).bind fun p p' hp => ?_
  rw [Setting.updateAllTerm, Setting.updateAllTerm]
  split_ifs
  · exact inStep_throw
  · refine (InStep.lambda fun n => inStep_patch updates _).bind fun f f' hf => ?_
    refine inStep_pure (Config.erase_withWriteOptions _ _ ?_)
    simp [(Pipeline.erase_eq_iff.mp hp).1, hf]

theorem inStep_deleteAll (q : Query) :
    InStep Term.erase (c.deleteAll q ps) (c.deleteAll q ps') := by
  refine (Pipeline.inStep_writeScope q).bind fun p p' hp => ?_
  refine inStep_pure (Config.erase_withWriteOptions _ _ ?_)
  simp [(Pipeline.erase_eq_iff.mp hp).1]

theorem inStep_query (q : Query) : InStep Term.erase (c.query q ps) (c.query q ps') :=
  (Pipeline.inStep_ofQuery q).bind fun _ _ hp => inStep_pure (Pipeline.erase_eq_iff.mp hp).1

end Compiler

/-- A query, an update and a delete compile to one term up to its data, whatever
the parameters for which they compile at all. -/
theorem erase_compiled :
    (∀ (c : Compiler) (q : Query) (ps ps' : Params) (t t' : Term),
      c.compileQuery q ps = .ok t → c.compileQuery q ps' = .ok t' → t.erase = t'.erase) ∧
    (∀ (c : Compiler) (q : Query) (updates : List Expr) (ps ps' : Params) (t t' : Term),
      c.compileUpdateAll q ps updates = .ok t → c.compileUpdateAll q ps' updates = .ok t' →
        t.erase = t'.erase) ∧
    (∀ (c : Compiler) (q : Query) (ps ps' : Params) (t t' : Term),
      c.compileDeleteAll q ps = .ok t → c.compileDeleteAll q ps' = .ok t' →
        t.erase = t'.erase) :=
  ⟨fun _ q _ _ _ _ => (Compiler.inStep_query q).outcome,
    fun _ q updates _ _ _ _ => (Compiler.inStep_updateAll q updates).outcome,
    fun _ q _ _ _ _ => (Compiler.inStep_deleteAll q).outcome⟩

/-- A list with the JSON of a delete in it against an empty one. -/
theorem erase_compiled_of_membership :
    let q : Query := {
      source := ⟨"posts", none⟩
      filters := [.isIn (.field 0 "id") (.param 0)]
    }
    let clause : Expr := .update .set "x" (.param 0)
    let ps : Params := [.array [(table none "posts").delete.wire]]
    let ps' : Params := [.array []]
    (∃ t t', ({} : Compiler).compileQuery q ps = .ok t ∧
      ({} : Compiler).compileQuery q ps' = .ok t' ∧ t.erase = t'.erase) ∧
    (∃ t t', ({} : Compiler).compileUpdateAll q ps [clause] = .ok t ∧
      ({} : Compiler).compileUpdateAll q ps' [clause] = .ok t' ∧ t.erase = t'.erase) ∧
    ∃ t t', ({} : Compiler).compileDeleteAll q ps = .ok t ∧
      ({} : Compiler).compileDeleteAll q ps' = .ok t' ∧ t.erase = t'.erase := by
  intro q clause ps ps'
  obtain ⟨hquery, hupdate, hdelete⟩ := erase_compiled
  exact ⟨⟨_, _, rfl, rfl, hquery {} q ps ps' _ _ rfl rfl⟩,
    ⟨_, _, rfl, rfl, hupdate {} q [clause] ps ps' _ _ rfl rfl⟩,
    ⟨_, _, rfl, rfl, hdelete {} q ps ps' _ _ rfl rfl⟩⟩

end DocQuery
