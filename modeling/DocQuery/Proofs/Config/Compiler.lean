import DocQuery.Proofs.Config.Qualified
import DocQuery.Proofs.Pipeline.Writes

/-!
# What a configuration decides

A configuration puts its database in front of every table and its options on
every write, and decides nothing else: no clause is refused because of it, and
no expression compiles to another term.
-/

namespace DocQuery

open Compile

/-- The same setting without a configuration of its own. -/
def Setting.unconfigured (s : Setting) : Setting := { s with config := {} }

/-! ## Pipelines -/

namespace Pipeline

/-- A pipeline with its tables read from a database. -/
def qualify (db : Option String) (p : Pipeline) : Pipeline := p.mapTerm (Term.qualify db)

variable {s : Setting} {p : Pipeline} {db : Option String}

@[simp] theorem qualify_term : (p.qualify db).term = p.term.qualify db := rfl

@[simp] theorem qualify_width : (p.qualify db).width = p.width := rfl

@[simp] theorem qualify_isGrouped : (p.qualify db).isGrouped = p.isGrouped := rfl

@[simp] theorem qualify_scalar : (p.qualify db).scalar = p.scalar := rfl

/-- A function of the elements is put around the term of a pipeline. -/
theorem mapTerm_qualify {f g : Term → Term}
    (h : g (p.term.qualify db) = (f p.term).qualify db) :
    (p.qualify db).mapTerm g = (p.mapTerm f).qualify db :=
  congrArg (fun t => { p with term := t }) h

theorem elementFunc_qualify (e : Expr) :
    (p.qualify db).elementFunc s e = Term.qualify db <$> p.elementFunc s.unconfigured e := by
  have hscope (v : Nat) : (p.qualify db).elementScope (.var v) =
      (p.elementScope (.var v)).qualify db := by
    unfold elementScope
    rw [qualify_isGrouped]
    split_ifs <;> rfl
  unfold elementFunc
  refine lambda_eq_map fun v => ?_
  rw [hscope]
  exact e.compile_qualify _

/-- A clause that puts one operation around the term. -/
theorem around_qualify {m m' : Compile Term} {op : Term → Term → Term}
    (hm : m' = Term.qualify db <$> m)
    (hop : ∀ t f : Term, op (t.qualify db) (f.qualify db) = (op t f).qualify db) :
    (m' >>= fun f => pure ((p.qualify db).mapTerm (op · f))) =
      qualify db <$> (m >>= fun f => pure (p.mapTerm (op · f))) := by
  refine bind_eq_map hm fun f => ?_
  rw [map_pure]
  exact congrArg pure (mapTerm_qualify (hop p.term f))

theorem filterAll_qualify (conditions : List Expr) :
    (p.qualify db).filterAll s conditions =
      qualify db <$> p.filterAll s.unconfigured conditions := by
  unfold filterAll
  split_ifs
  · rfl
  · exact around_qualify (elementFunc_qualify _) fun t f => by simp [Term.filter]

theorem groupBy_qualify (keys : List Expr) :
    (p.qualify db).groupBy s keys = qualify db <$> p.groupBy s.unconfigured keys := by
  unfold groupBy
  split_ifs
  · rfl
  · refine bind_eq_map (elementFunc_qualify _) fun f => ?_
    simp [qualify, mapTerm, Term.group, Term.ungroup]

theorem having_qualify (conditions : List Expr) :
    (p.qualify db).having s conditions = qualify db <$> p.having s.unconfigured conditions := by
  unfold having
  rw [qualify_isGrouped]
  split_ifs
  · rfl
  · exact throw_eq_map _ _
  · exact filterAll_qualify conditions

theorem orderKey_qualify (o : OrderTerm) :
    (p.qualify db).orderKey s o = Term.qualify db <$> p.orderKey s.unconfigured o := by
  unfold orderKey
  refine bind_eq_map (elementFunc_qualify _) fun f => ?_
  cases o.direction with
  | ascending => simp [Term.asc]
  | descending => simp [Term.desc]

theorem orderBy_qualify (order : List OrderTerm) :
    (p.qualify db).orderBy s order = qualify db <$> p.orderBy s.unconfigured order := by
  unfold orderBy
  split_ifs
  · rfl
  · refine bind_eq_map (mapM_eq_map fun o _ => orderKey_qualify o) fun ts => ?_
    rw [map_pure, mapTerm_qualify]
    simp [Term.orderBy]

theorem counted_qualify {clause : String} {op : Term → Term → Term}
    (hop : ∀ t f : Term, op (t.qualify db) (f.qualify db) = (op t f).qualify db)
    (e? : Option Expr) :
    (p.qualify db).counted s clause op e? =
      qualify db <$> p.counted s.unconfigured clause op e? := by
  cases e? with
  | none => rfl
  | some e => exact around_qualify (e.compileCount_qualify clause) hop

theorem distinct_qualify (d : Distinct) :
    (p.qualify db).distinct d = qualify db <$> p.distinct d := by
  cases d with
  | off => rfl
  | byExpr e => exact throw_eq_map _ _
  | flag on =>
      cases on with
      | false => rfl
      | true =>
          unfold distinct
          rw [qualify_scalar]
          split_ifs
          · rfl
          · rw [map_pure, mapTerm_qualify]
            simp [Term.distinct]

/-! ## Joins -/

theorem merge_qualify (width : Nat) (pair : Term) :
    merge width (pair.qualify db) = (merge width pair).qualify db := by
  unfold merge
  split_ifs <;> simp [Term.bracket, Term.append, Term.string]

/-- The joined table gets the database, whether there is one or not. -/
theorem qualify_table_unconfigured (s : Setting) (name : String) :
    (Term.table s.unconfigured.config.database name).qualify s.config.database =
      .table s.config.database name :=
  Term.qualify_table name

/-- The slots of a variable hold no table. -/
theorem slot_eq_map (db : Option String) (v width r : Nat) :
    (liftM (Scope.slot (.var v) width r) : Compile Term) =
      Term.qualify db <$> (liftM (Scope.slot (.var v) width r) : Compile Term) := by
  rw [← lift_map, ← Scope.slot_qualify, Term.qualify_var]

theorem pairByLink_qualify (source : Source) :
    (p.qualify s.config.database).pairByLink s source =
      Term.qualify s.config.database <$> p.pairByLink s.unconfigured source := by
  have hkey (r : Nat) (link : Link) :
      lambda (fun row => return (← Scope.slot row p.width r).bracket link.leftKey) =
        Term.qualify s.config.database <$>
          lambda fun row => return (← Scope.slot row p.width r).bracket link.leftKey :=
    lambda_eq_map fun v => bind_eq_map (slot_eq_map s.config.database v p.width r) fun t => by
      rw [map_pure]
      simp [Term.bracket, Term.string]
  unfold pairByLink
  rw [map_bind]
  refine bind_congr fun backing => ?_
  obtain ⟨r, link⟩ := backing
  refine bind_eq_map (hkey r link) fun f => ?_
  rw [← qualify_table_unconfigured]
  show (if link.rightKey = s.catalog.primaryKey source then _ else _) =
    _ <$> (if link.rightKey = s.catalog.primaryKey source then _ else _)
  split_ifs
  · simp [Term.eqJoin]
  · simp [Term.eqJoin, Term.call, Term.withOptarg, Term.string]

theorem pairByPredicate_qualify (j : Join) :
    (p.qualify s.config.database).pairByPredicate s j =
      Term.qualify s.config.database <$> p.pairByPredicate s.unconfigured j := by
  have hpredicate : lambda₂ (fun left right =>
        j.condition.compile s.engine s.params (.pair left p.width right)) =
      Term.qualify s.config.database <$> lambda₂ fun left right =>
        j.condition.compile s.engine s.params (.pair left p.width right) :=
    lambda₂_eq_map fun a b => j.condition.compile_qualify (.pair (.var a) p.width (.var b))
  refine bind_eq_map hpredicate fun f => ?_
  rw [map_pure, ← qualify_table_unconfigured]
  simp [Term.innerJoin]

/-- Every table that a join reads is qualified as well. -/
theorem join_qualify (j : Join) :
    (p.qualify s.config.database).join s j =
      qualify s.config.database <$> p.join s.unconfigured j := by
  have hpaired : (p.qualify s.config.database).paired s j =
      Term.qualify s.config.database <$> p.paired s.unconfigured j := by
    unfold paired
    split_ifs
    · exact pairByLink_qualify j.source
    · exact pairByPredicate_qualify j
  have hmerge : lambda (fun pair => return merge p.width pair) =
      Term.qualify s.config.database <$> lambda fun pair => return merge p.width pair := by
    refine lambda_eq_map fun v => ?_
    rw [map_pure, ← merge_qualify, Term.qualify_var]
  rw [join_eq, join_eq]
  refine bind_eq_map hpaired fun t => bind_eq_map hmerge fun f => ?_
  rw [map_pure]
  simp [qualify, mapTerm, Term.map]

theorem joins_qualify (js : List Join) :
    (p.qualify s.config.database).joins s js =
      qualify s.config.database <$> p.joins s.unconfigured js := by
  induction js generalizing p with
  | nil => rfl
  | cons j js ih =>
      unfold joins
      rw [List.foldlM_cons, List.foldlM_cons]
      exact bind_eq_map (join_qualify j) fun q => ih

/-! ## Projections -/

theorem flattened_qualify : (p.qualify db).flattened = qualify db <$> p.flattened := by
  have hrows : lambda (fun group => return group.bracket "reduction") =
      Term.qualify db <$> lambda fun group => return group.bracket "reduction" :=
    lambda_eq_map fun v => by simp [Term.bracket, Term.string]
  unfold flattened
  rw [qualify_isGrouped]
  split_ifs
  · refine bind_eq_map hrows fun f => ?_
    simp [qualify, mapTerm, Term.concatMap]
  · rfl

theorem selectEntity_qualify (r : Nat) :
    (p.qualify db).selectEntity r = qualify db <$> p.selectEntity r := by
  unfold selectEntity
  rw [qualify_width]
  split_ifs
  · exact throw_eq_map _ _
  · refine bind_eq_map flattened_qualify fun q => ?_
    rw [qualify_width]
    split_ifs
    · rfl
    · refine around_qualify (lambda_eq_map fun v => ?_) fun t f => by simp [Term.map]
      exact slot_eq_map db v q.width r

theorem selectTotal_qualify (shape : Expr) :
    (p.qualify db).selectTotal s shape = qualify db <$> p.selectTotal s.unconfigured shape := by
  unfold selectTotal
  refine bind_eq_map (shape.compile_qualify (.total p.term p.width)) fun t => ?_
  split_ifs
  · rw [map_pure]
    simp [qualify, mapTerm]
  · rfl

theorem selectShape_qualify (shape : Expr) :
    (p.qualify db).selectShape s shape = qualify db <$> p.selectShape s.unconfigured shape := by
  unfold selectShape
  rw [qualify_isGrouped]
  split_ifs
  · exact selectTotal_qualify shape
  · exact around_qualify (elementFunc_qualify _) fun t f => by simp [Term.map]

theorem select_qualify (projection : Expr) (preloads : List Nat) :
    (p.qualify db).select s projection preloads =
      qualify db <$> p.select s.unconfigured projection preloads := by
  rcases hs : shape? projection preloads with _ | shape
  · obtain ⟨r, rfl, rfl⟩ := shape?_eq_none.mp hs
    exact selectEntity_qualify r
  · rw [select_of_shape hs, select_of_shape hs]
    exact selectShape_qualify shape

/-! ## Queries -/

theorem ofSource_qualify (source : Source) :
    ofSource s source = (ofSource s.unconfigured source).qualify s.config.database := by
  rw [qualify, mapTerm, ofSource, ofSource, qualify_table_unconfigured]

/-- A query passes its clauses under any configuration as under none. -/
theorem ofQuery_qualify (q : Query) :
    ofQuery s q = qualify s.config.database <$> ofQuery s.unconfigured q := by
  by_cases hd : ∃ e, q.distinct = .byExpr e
  · obtain ⟨e, hd⟩ := hd
    rw [ofQuery_byExpr hd, ofQuery_byExpr hd]
    exact throw_eq_map _ _
  · have hd' : ∀ e, q.distinct ≠ .byExpr e := fun e h => hd ⟨e, h⟩
    rw [ofQuery_eq hd', ofQuery_eq hd', ofSource_qualify]
    refine bind_eq_map (joins_qualify _) fun p₁ => bind_eq_map (filterAll_qualify _) fun p₂ => ?_
    refine bind_eq_map (groupBy_qualify _) fun p₃ => bind_eq_map (having_qualify _) fun p₄ => ?_
    refine bind_eq_map (orderBy_qualify _) fun p₅ => ?_
    refine bind_eq_map (counted_qualify (fun t f => by simp [Term.skip]) _) fun p₆ => ?_
    refine bind_eq_map (counted_qualify (fun t f => by simp [Term.limit]) _) fun p₇ => ?_
    exact bind_eq_map (select_qualify _ _) fun p₈ => distinct_qualify _

theorem writeScope_qualify (q : Query) :
    writeScope s q = qualify s.config.database <$> writeScope s.unconfigured q := by
  unfold writeScope
  cases clauseNotForWrites? q with
  | some clause => exact throw_eq_map _ _
  | none =>
      rw [ofSource_qualify]
      exact filterAll_qualify q.filters

end Pipeline

/-! ## Writes -/

namespace Expr

variable {engine : RegexEngine} {params : Params} {db : Option String}

theorem patched_qualify (op : UpdateOp) (current value : Term) :
    patched op (current.qualify db) (value.qualify db) =
      (patched op current value).qualify db := by
  cases op with
  | set => rfl
  | increment => simp [patched, Term.binary]
  | push => simp [patched, Term.append]
  | pull => simp [patched, Term.difference]

theorem compileUpdate_qualify (e : Expr) (row : Term) :
    e.compileUpdate engine params (row.qualify db) =
      (fun entry : String × Term => (entry.1, entry.2.qualify db)) <$>
        e.compileUpdate engine params row := by
  cases e with
  | update op name v =>
      refine bind_eq_map (v.compile_qualify (.row row 1)) fun value => ?_
      rw [map_pure, ← patched_qualify]
      simp [Term.bracket, Term.string]
  | _ => exact throw_eq_map _ _

end Expr

namespace Setting

variable {s : Setting} {db : Option String}

theorem patch_qualify (updates : List Expr) (row : Term) :
    s.patch updates (row.qualify db) = Term.qualify db <$> s.unconfigured.patch updates row := by
  unfold patch
  refine bind_eq_map (mapM_eq_map fun e _ => e.compileUpdate_qualify row) fun entries => ?_
  have hnames : (entries.map fun entry : String × Term => (entry.1, entry.2.qualify db)).map
      (·.1) = entries.map (·.1) := by
    rw [List.map_map]
    rfl
  rw [hnames]
  split
  · exact throw_eq_map _ _
  · rw [map_pure, Term.qualify_makeObject]

/-- The options go onto the update itself and into nothing below it. -/
theorem updateAllTerm_qualify (p : Pipeline) (updates : List Expr) :
    s.updateAllTerm (p.qualify db) updates =
      (fun t => s.config.withWriteOptions false (t.qualify db)) <$>
        s.unconfigured.updateAllTerm p updates := by
  unfold updateAllTerm
  split_ifs
  · exact throw_eq_map _ _
  · have hpatch : lambda (s.patch updates) =
        Term.qualify db <$> lambda (s.unconfigured.patch updates) :=
      lambda_eq_map fun v => patch_qualify updates (.var v)
    refine bind_eq_map hpatch fun f => ?_
    have hdefault (t : Term) : s.unconfigured.config.withWriteOptions false t = t := rfl
    rw [map_pure, hdefault]
    simp [Term.update]

end Setting

/-! ## Compilers -/

namespace Compiler

open Term

variable {config : Config} {catalog : Catalog} {engine : RegexEngine}

theorem compileQuery_qualify (q : Query) (params : Params) :
    compileQuery ⟨config, catalog, engine⟩ q params =
      (compileQuery ⟨{}, catalog, engine⟩ q params).map (Term.qualify config.database) := by
  unfold compileQuery
  rw [← outcome_map]
  refine congrArg outcome ?_
  have hpipeline := Pipeline.ofQuery_qualify (s := ⟨config, catalog, params, engine⟩) q
  refine bind_eq_map hpipeline fun p => ?_
  rw [map_pure, Pipeline.qualify_term]

/-- What a write under a configuration is made of the write under none. -/
theorem compileWrite_qualify (w : Write) :
    compileWrite ⟨config, catalog, engine⟩ w =
      (compileWrite ⟨{}, catalog, engine⟩ w).map fun t =>
        config.withWriteOptions w.isInsert (t.qualify config.database) := by
  cases w with
  | insert name fields | insertAll name rows =>
      have hterm (v : Json) : (table config.database name).insert (.datum v) =
          ((table none name).insert (.datum v)).qualify config.database := by
        simp [Term.insert, qualify_table]
      exact congrArg (fun t => Except.ok (config.withWriteOptions true t)) (hterm _)
  | update name key fields =>
      have hterm (v : Json) : ((table config.database name).get (.datum key)).update (.datum v) =
          (((table none name).get (.datum key)).update (.datum v)).qualify config.database := by
        simp [Term.get, Term.update, qualify_table]
      exact congrArg (fun t => Except.ok (config.withWriteOptions false t)) (hterm _)
  | delete name key =>
      have hterm : ((table config.database name).get (.datum key)).delete =
          ((table none name).get (.datum key)).delete.qualify config.database := by
        simp [Term.get, Term.delete, qualify_table]
      exact congrArg (fun t => Except.ok (config.withWriteOptions false t)) hterm
  | updateAll q params updates =>
      have hscope := Pipeline.writeScope_qualify (s := ⟨config, catalog, params, engine⟩) q
      refine (congrArg outcome ?_).trans (outcome_map _ _)
      exact bind_eq_map hscope fun p => Setting.updateAllTerm_qualify p updates
  | deleteAll q params =>
      have hscope := Pipeline.writeScope_qualify (s := ⟨config, catalog, params, engine⟩) q
      refine (congrArg outcome ?_).trans (outcome_map _ _)
      refine bind_eq_map hscope fun p => ?_
      rw [map_pure]
      have hterm : (p.qualify config.database).term.delete =
          p.term.delete.qualify config.database := by
        simp [Term.delete]
      exact congrArg (fun t => pure (config.withWriteOptions false t)) hterm

/-- Without a configuration, a write is one operation without options. -/
theorem compileWrite_default {w : Write} {t : Term}
    (h : compileWrite ⟨{}, catalog, engine⟩ w = .ok t) : ∃ args, t = .call w.kind args := by
  cases w with
  | insert | insertAll | update | delete =>
      cases h
      exact ⟨_, rfl⟩
  | updateAll q params updates =>
      obtain ⟨k, hk⟩ := outcome_eq_ok.mp h
      obtain ⟨scope, n, -, hterm⟩ := yields_bind.mp hk
      obtain ⟨-, patch, -, rfl⟩ := Setting.yields_updateAllTerm.mp hterm
      exact ⟨_, rfl⟩
  | deleteAll q params =>
      obtain ⟨k, hk⟩ := outcome_eq_ok.mp h
      obtain ⟨scope, n, -, hterm⟩ := yields_bind.mp hk
      obtain ⟨rfl, rfl⟩ := yields_pure.mp hterm
      exact ⟨_, rfl⟩

end Compiler

/-- A configuration decides nothing but where tables are read and what goes with
a write. What is refused under it is refused under none, for the same reason. A
compiled query is the one under no configuration with its tables in the database;
so are the arguments of a compiled write, and the options are on the write
itself. -/
theorem compile_configured (config : Config) (catalog : Catalog) (engine : RegexEngine) :
    (∀ (q : Query) (params : Params),
      Compiler.compileQuery ⟨config, catalog, engine⟩ q params =
        (Compiler.compileQuery ⟨{}, catalog, engine⟩ q params).map (Term.qualify config.database)) ∧
    (∀ w : Write,
      (∃ r, Compiler.compileWrite ⟨{}, catalog, engine⟩ w = .error r ∧
        Compiler.compileWrite ⟨config, catalog, engine⟩ w = .error r) ∨
      ∃ args, Compiler.compileWrite ⟨{}, catalog, engine⟩ w = .ok (.call w.kind args) ∧
        Compiler.compileWrite ⟨config, catalog, engine⟩ w =
          .ok (.op w.kind (args.map (Term.qualify config.database))
            (config.writeOptions w.isInsert))) ∧
    ∀ t : Term, t.qualify none = t := by
  refine ⟨Compiler.compileQuery_qualify, fun w => ?_, Term.qualify_none⟩
  have hconfigured : Compiler.compileWrite ⟨config, catalog, engine⟩ w = _ :=
    Compiler.compileWrite_qualify w
  rcases hw : Compiler.compileWrite ⟨{}, catalog, engine⟩ w with r | t
  · rw [hw] at hconfigured
    exact Or.inl ⟨r, rfl, hconfigured⟩
  · obtain ⟨args, rfl⟩ := Compiler.compileWrite_default hw
    have hkind : w.kind ≠ .table := by cases w <;> nofun
    refine Or.inr ⟨args, rfl, ?_⟩
    rw [hconfigured, hw, ← Config.withWriteOptions_eq, ← Term.qualify_call hkind]
    rfl

example :
    Compiler.compileWrite ⟨{ database := some "blog", conflict := .replace, returnChanges := true },
      {}, {}⟩ (.insert "posts" []) =
      .ok (.op .insert [.table (some "blog") "posts", .datum (.object [])]
        [("conflict", .string "replace"), ("return_changes", .bool true)]) := rfl

end DocQuery
