import DocQuery.Pipeline.Query
import DocQuery.Proofs.Expr.Operands

/-!
# What a clause does to a pipeline

One equation for each clause: the pipelines that it can yield, in terms of the
functions and counts that its expressions compile to. An absent clause changes
nothing and draws no number.
-/

namespace DocQuery.Pipeline

open Compile

variable {s : Setting} {p p' : Pipeline} {n k : Nat}

theorem isGrouped_eq_false : p.isGrouped = false ↔ p.groupKeys = [] := by
  simp [isGrouped]

/-! ## Filters, groups and order -/

theorem yields_filterAll {conditions : List Expr} :
    (p.filterAll s conditions).Yields n p' k ↔
      conditions = [] ∧ p' = p ∧ k = n ∨
        conditions ≠ [] ∧ ∃ f, (p.elementFunc s (.and conditions)).Yields n f k ∧
          p' = p.mapTerm (·.filter f) := by
  cases conditions with
  | nil => simp [filterAll]
  | cons c cs => simp [filterAll]

theorem yields_groupBy {keys : List Expr} :
    (p.groupBy s keys).Yields n p' k ↔
      keys = [] ∧ p' = p ∧ k = n ∨
        keys ≠ [] ∧ ∃ f, (p.elementFunc s (.list keys)).Yields n f k ∧
          p' = { p with term := (p.term.group f).ungroup, groupKeys := keys } := by
  cases keys with
  | nil => simp [groupBy]
  | cons c cs => simp [groupBy]

theorem yields_having {conditions : List Expr} :
    (p.having s conditions).Yields n p' k ↔
      (p.filterAll s conditions).Yields n p' k ∧ (conditions ≠ [] → p.isGrouped) := by
  cases conditions with
  | nil => simp [having, filterAll]
  | cons c cs =>
      by_cases hg : p.isGrouped = true
      · simp [having, hg]
      · simp [having, hg]

theorem yields_orderKey {o : OrderTerm} {t : Term} :
    (p.orderKey s o).Yields n t k ↔
      ∃ f, (p.elementFunc s o.key).Yields n f k ∧
        t = match o.direction with
          | .ascending => .asc f
          | .descending => .desc f := by
  rw [orderKey, yields_bind]
  cases o.direction with
  | ascending | descending =>
      simp only [yields_pure]
      constructor
      · rintro ⟨f, j, hf, rfl, rfl⟩
        exact ⟨f, hf, rfl⟩
      · rintro ⟨f, hf, rfl⟩
        exact ⟨f, k, hf, rfl, rfl⟩

theorem yields_orderBy {order : List OrderTerm} :
    (p.orderBy s order).Yields n p' k ↔
      order = [] ∧ p' = p ∧ k = n ∨
        order ≠ [] ∧ ∃ ts, YieldsEach (p.orderKey s) order n ts k ∧
          p' = p.mapTerm (·.orderBy ts) := by
  cases order with
  | nil => simp [orderBy]
  | cons o os =>
      simp only [orderBy, List.isEmpty_cons, Bool.false_eq_true, if_false, yields_bind,
        yields_mapM, yields_pure]
      simp

theorem yields_counted {clause : String} {op : Term → Term → Term} {e? : Option Expr} :
    (p.counted s clause op e?).Yields n p' k ↔
      e? = none ∧ p' = p ∧ k = n ∨
        ∃ e c, e? = some e ∧ (e.compileCount s.engine s.params clause).Yields n c k ∧
          p' = p.mapTerm fun t => op t c := by
  cases e? with
  | none => simp [counted]
  | some e => simp [counted]

theorem yields_distinct {d : Distinct} :
    (p.distinct d).Yields n p' k ↔
      k = n ∧ match d with
        | .off | .flag false => p' = p
        | .flag true => p' = if p.scalar then p else p.mapTerm .distinct
        | .byExpr _ => False := by
  cases d with
  | off => simp [distinct, and_comm]
  | flag on =>
      cases on with
      | false => simp [distinct, and_comm]
      | true =>
          by_cases hs : p.scalar = true
          · simp [distinct, hs, and_comm]
          · simp [distinct, hs, and_comm]
  | byExpr e => simp [distinct]

/-! ## Joins -/

theorem yields_pairByLink {source : Source} {t : Term} :
    (p.pairByLink s source).Yields n t k ↔
      ∃ r link slot, s.catalog.resolve p.relations source = .ok (r, link) ∧
        Scope.slot (.var n) p.width r = .ok slot ∧ k = n + 1 ∧
        t = if link.rightKey = s.catalog.primaryKey source then
            p.term.eqJoin (.func [n] (slot.bracket link.leftKey))
              (.table s.config.database source.table)
          else
            (p.term.eqJoin (.func [n] (slot.bracket link.leftKey))
              (.table s.config.database source.table)).withOptarg "index"
                (.string link.rightKey) := by
  simp only [pairByLink, yields_bind, yields_lift, yields_lambda, yields_pure]
  constructor
  · rintro ⟨⟨r, link⟩, j, ⟨hr, rfl⟩, f, i, ⟨u, ⟨slot, l, ⟨hslot, rfl⟩, rfl, rfl⟩, rfl⟩, ht⟩
    refine ⟨r, link, slot, hr, hslot, ?_⟩
    split_ifs at ht ⊢ <;> simpa [and_comm] using ht
  · rintro ⟨r, link, slot, hr, hslot, rfl, rfl⟩
    refine ⟨(r, link), n, ⟨hr, rfl⟩, _, n + 1, ⟨_, ⟨slot, _, ⟨hslot, rfl⟩, rfl, rfl⟩, rfl⟩, ?_⟩
    split_ifs <;> simp

theorem yields_pairByPredicate {j : Join} {t : Term} :
    (p.pairByPredicate s j).Yields n t k ↔
      ∃ body, (j.condition.compile s.engine s.params (.pair (.var n) p.width (.var (n + 1)))).Yields
          (n + 2) body k ∧
        t = p.term.innerJoin (.table s.config.database j.source.table)
          (.func [n, n + 1] body) := by
  simp only [pairByPredicate, yields_bind, yields_lambda₂, yields_pure]
  constructor
  · rintro ⟨f, j, ⟨body, hbody, rfl⟩, rfl, rfl⟩
    exact ⟨body, hbody, rfl⟩
  · rintro ⟨body, hbody, rfl⟩
    exact ⟨_, k, ⟨body, hbody, rfl⟩, rfl, rfl⟩

/-- The pairs of a join, by the declared association or by its condition. -/
def paired (s : Setting) (p : Pipeline) (j : Join) : Compile Term :=
  if j.condition.isTrivial then p.pairByLink s j.source else p.pairByPredicate s j

theorem join_eq (j : Join) :
    p.join s j = (do
      let t ← p.paired s j
      let f ← lambda fun pair => return merge p.width pair
      return { p with term := t.map f, relations := p.relations ++ [j.source.schema] }) := by
  rw [join, paired]
  split_ifs <;> rfl

theorem yields_join {j : Join} :
    (p.join s j).Yields n p' k ↔
      ∃ t m, (p.paired s j).Yields n t m ∧ k = m + 1 ∧
        p' = { p with
          term := t.map (.func [m] (merge p.width (.var m)))
          relations := p.relations ++ [j.source.schema] } := by
  simp only [join_eq, yields_bind, yields_lambda, yields_pure]
  constructor
  · rintro ⟨t, m, ht, f, i, ⟨u, ⟨rfl, rfl⟩, rfl⟩, rfl, rfl⟩
    exact ⟨t, m, ht, rfl, rfl⟩
  · rintro ⟨t, m, ht, rfl, rfl⟩
    exact ⟨t, m, ht, _, m + 1, ⟨_, ⟨rfl, rfl⟩, rfl⟩, rfl, rfl⟩

theorem yields_joins_nil : (p.joins s []).Yields n p' k ↔ p' = p ∧ k = n := by
  rw [joins, List.foldlM_nil, yields_pure]

theorem yields_joins_cons {j : Join} {js : List Join} :
    (p.joins s (j :: js)).Yields n p' k ↔
      ∃ q m, (p.join s j).Yields n q m ∧ (q.joins s js).Yields m p' k := by
  rw [joins, List.foldlM_cons, yields_bind]
  rfl

/-! ## Projections -/

/-- The slots are the items and the preloaded relations, none lost and none repeated. -/
theorem slots_perm (items : List Expr) (preloads : List Nat) :
    (slots items preloads).Perm (items ++ preloads.map Expr.entity) := by
  rw [slots, List.append_assoc]
  calc
    (items.filter Expr.isEntity ++ (preloads.map Expr.entity ++ items.filter (!·.isEntity))).Perm
        (items.filter Expr.isEntity ++ (items.filter (!·.isEntity) ++ preloads.map Expr.entity)) :=
      List.perm_append_comm.append_left _
    _ = (items.filter Expr.isEntity ++ items.filter (!·.isEntity)) ++ preloads.map Expr.entity :=
      (List.append_assoc _ _ _).symm
    List.Perm _ (items ++ preloads.map Expr.entity) :=
      (List.filter_append_perm _ items).append_right _

/-- What is computed for every output element; nothing where whole rows of one
relation are picked. -/
def shape? (projection : Expr) (preloads : List Nat) : Option Expr :=
  match projection with
  | .entity r => if preloads.isEmpty then none else some (.list (slots [.entity r] preloads))
  | .list items | .tuple items => some (.list (slots items preloads))
  | e => some e

theorem select_of_shape {e shape : Expr} {preloads : List Nat}
    (h : shape? e preloads = some shape) : p.select s e preloads = p.selectShape s shape := by
  cases e with
  | entity r =>
      simp only [shape?] at h
      split at h
      · cases h
      · rename_i hp
        cases h
        simp [select, hp]
  | _ => cases h; rfl

theorem shape?_eq_none {e : Expr} {preloads : List Nat} :
    shape? e preloads = none ↔ ∃ r, e = .entity r ∧ preloads = [] := by
  cases e <;> simp [shape?]

theorem yields_flattened :
    p.flattened.Yields n p' k ↔
      p.isGrouped = false ∧ p' = p ∧ k = n ∨
        p.isGrouped ∧ k = n + 1 ∧
          p' = { p with
            term := p.term.concatMap (.func [n] ((Term.var n).bracket "reduction"))
            groupKeys := [] } := by
  cases hg : p.isGrouped with
  | false => simp [flattened, hg]
  | true =>
      simp only [flattened, hg, if_true, yields_bind, yields_lambda, yields_pure]
      constructor
      · rintro ⟨f, j, ⟨t, ⟨rfl, rfl⟩, rfl⟩, rfl, rfl⟩
        exact Or.inr ⟨trivial, rfl, rfl⟩
      · rintro (⟨h, -⟩ | ⟨-, rfl, rfl⟩)
        · cases h
        · exact ⟨_, n + 1, ⟨_, ⟨rfl, rfl⟩, rfl⟩, rfl, rfl⟩

theorem yields_selectEntity {r : Nat} :
    (p.selectEntity r).Yields n p' k ↔
      r < p.width ∧ ∃ q m, p.flattened.Yields n q m ∧
        (q.width = 1 ∧ p' = q ∧ k = m ∨
          q.width ≠ 1 ∧ ∃ slot, Scope.slot (.var m) q.width r = .ok slot ∧ k = m + 1 ∧
            p' = q.mapTerm (·.map (.func [m] slot))) := by
  by_cases hr : p.width ≤ r
  · simp [selectEntity, hr, Nat.not_lt.mpr hr]
  · simp only [selectEntity, if_neg hr, Nat.lt_of_not_le hr, true_and, yields_bind]
    refine exists_congr fun q => exists_congr fun m => and_congr_right fun _ => ?_
    by_cases hq : q.width = 1
    · simp [hq]
    · simp only [hq, if_false, false_and, false_or, not_false_eq_true, true_and, ne_eq,
        yields_bind, yields_lambda, yields_pure, yields_lift]
      constructor
      · rintro ⟨f, j, ⟨t, ⟨ht, rfl⟩, rfl⟩, rfl, rfl⟩
        exact ⟨t, ht, rfl, rfl⟩
      · rintro ⟨t, ht, rfl, rfl⟩
        exact ⟨_, m + 1, ⟨t, ⟨ht, rfl⟩, rfl⟩, rfl, rfl⟩

theorem yields_selectTotal {shape : Expr} :
    (p.selectTotal s shape).Yields n p' k ↔
      ∃ t, (shape.compile s.engine s.params (.total p.term p.width)).Yields n t k ∧
        p' = if isRowShape shape then { p with term := .makeArray [t] }
          else { p with term := t, scalar := true } := by
  simp only [selectTotal, yields_bind]
  split_ifs <;> simp

theorem yields_selectShape {shape : Expr} :
    (p.selectShape s shape).Yields n p' k ↔
      (!p.isGrouped && shape.containsAggregate) = true ∧ (p.selectTotal s shape).Yields n p' k ∨
        (!p.isGrouped && shape.containsAggregate) = false ∧
          ∃ f, (p.elementFunc s shape).Yields n f k ∧ p' = p.mapTerm (·.map f) := by
  rw [selectShape]
  split_ifs with h
  · simp [h]
  · simp [h]

/-! ## Queries -/

theorem ofQuery_byExpr {q : Query} {e : Expr} (h : q.distinct = .byExpr e) :
    ofQuery s q = throw (.distinctByExpr e) := by
  rw [ofQuery, h]
  rfl

theorem ofQuery_eq {q : Query} (h : ∀ e, q.distinct ≠ .byExpr e) :
    ofQuery s q = (do
      let p ← (ofSource s q.source).joins s q.joins
      let p ← p.filterAll s q.filters
      let p ← p.groupBy s q.groupKeys
      let p ← p.having s q.having
      let p ← p.orderBy s q.order
      let p ← p.offset s q.offset
      let p ← p.limit s q.limit
      let p ← p.select s q.projection q.preloads
      p.distinct q.distinct) := by
  rw [ofQuery]
  cases hd : q.distinct with
  | byExpr e => exact absurd hd (h e)
  | off | flag => rfl

/-- The clauses before the projection. -/
def beforeSelect (s : Setting) (q : Query) : Compile Pipeline := do
  let p ← (ofSource s q.source).joins s q.joins
  let p ← p.filterAll s q.filters
  let p ← p.groupBy s q.groupKeys
  let p ← p.having s q.having
  let p ← p.orderBy s q.order
  let p ← p.offset s q.offset
  p.limit s q.limit

/-- The projection and distinct come last. -/
theorem yields_ofQuery_iff {q : Query} :
    (ofQuery s q).Yields n p' k ↔
      (∀ e, q.distinct ≠ .byExpr e) ∧ ∃ before after m j, (beforeSelect s q).Yields n before m ∧
        (before.select s q.projection q.preloads).Yields m after j ∧
          (after.distinct q.distinct).Yields j p' k := by
  by_cases hd : ∃ e, q.distinct = .byExpr e
  · obtain ⟨e, hd⟩ := hd
    rw [ofQuery_byExpr hd]
    exact iff_of_false not_yields_throw fun h => h.1 e hd
  · have hdistinct : ∀ e, q.distinct ≠ .byExpr e := fun e h => hd ⟨e, h⟩
    have heq : ofQuery s q = (do
        let before ← beforeSelect s q
        let after ← before.select s q.projection q.preloads
        after.distinct q.distinct) := by
      simp only [ofQuery_eq hdistinct, beforeSelect, bind_assoc]
    rw [heq]
    simp only [yields_bind]
    constructor
    · rintro ⟨before, m, hbefore, after, j, hafter, h⟩
      exact ⟨hdistinct, before, after, m, j, hbefore, hafter, h⟩
    · rintro ⟨-, before, after, m, j, hbefore, hafter, h⟩
      exact ⟨before, m, hbefore, after, j, hafter, h⟩

/-- The clauses that keep the elements as they are. -/
def SameElements (p p' : Pipeline) : Prop :=
  p'.relations = p.relations ∧ p'.groupKeys = p.groupKeys

theorem SameElements.width_eq (h : p.SameElements p') : p'.width = p.width := by
  rw [width, width, h.1]

theorem SameElements.trans {p'' : Pipeline} (h : p.SameElements p') (h' : p'.SameElements p'') :
    p.SameElements p'' :=
  ⟨h'.1.trans h.1, h'.2.trans h.2⟩

theorem sameElements_filterAll {conditions : List Expr}
    (h : (p.filterAll s conditions).Yields n p' k) : p.SameElements p' := by
  rcases yields_filterAll.mp h with ⟨-, rfl, -⟩ | ⟨-, f, -, rfl⟩
  · exact ⟨rfl, rfl⟩
  · exact ⟨rfl, rfl⟩

theorem sameElements_having {conditions : List Expr}
    (h : (p.having s conditions).Yields n p' k) : p.SameElements p' :=
  sameElements_filterAll (yields_having.mp h).1

theorem sameElements_orderBy {order : List OrderTerm}
    (h : (p.orderBy s order).Yields n p' k) : p.SameElements p' := by
  rcases yields_orderBy.mp h with ⟨-, rfl, -⟩ | ⟨-, ts, -, rfl⟩
  · exact ⟨rfl, rfl⟩
  · exact ⟨rfl, rfl⟩

theorem sameElements_counted {clause : String} {op : Term → Term → Term} {e? : Option Expr}
    (h : (p.counted s clause op e?).Yields n p' k) : p.SameElements p' := by
  rcases yields_counted.mp h with ⟨-, rfl, -⟩ | ⟨e, c, -, -, rfl⟩
  · exact ⟨rfl, rfl⟩
  · exact ⟨rfl, rfl⟩

theorem groupKeys_groupBy {keys : List Expr} (hp : p.groupKeys = [])
    (h : (p.groupBy s keys).Yields n p' k) :
    p'.relations = p.relations ∧ p'.groupKeys = keys := by
  rcases yields_groupBy.mp h with ⟨rfl, rfl, -⟩ | ⟨-, f, -, rfl⟩
  · exact ⟨rfl, hp⟩
  · exact ⟨rfl, rfl⟩

theorem relations_joins {js : List Join} (h : (p.joins s js).Yields n p' k) :
    p'.relations = p.relations ++ js.map (·.source.schema) ∧ p'.groupKeys = p.groupKeys := by
  induction js generalizing p n with
  | nil =>
      obtain ⟨rfl, -⟩ := yields_joins_nil.mp h
      simp
  | cons j js ih =>
      obtain ⟨q, m, hq, hp'⟩ := yields_joins_cons.mp h
      obtain ⟨t, i, -, -, rfl⟩ := yields_join.mp hq
      obtain ⟨hrel, hkeys⟩ := ih hp'
      exact ⟨by simpa using hrel, hkeys⟩

/-! ## The counter -/

theorem grows_elementFunc (e : Expr) : (p.elementFunc s e).Grows :=
  Grows.lambda fun _ => Expr.grows_compile e _

theorem grows_filterAll (conditions : List Expr) : (p.filterAll s conditions).Grows := by
  rw [filterAll]
  split_ifs
  · exact grows_pure p
  · exact (grows_elementFunc _).bind fun f => grows_pure _

theorem grows_groupBy (keys : List Expr) : (p.groupBy s keys).Grows := by
  rw [groupBy]
  split_ifs
  · exact grows_pure p
  · exact (grows_elementFunc _).bind fun f => grows_pure _

theorem grows_having (conditions : List Expr) : (p.having s conditions).Grows := by
  rw [having]
  split_ifs
  · exact grows_pure p
  · exact grows_throw _
  · exact grows_filterAll conditions

theorem grows_orderKey (o : OrderTerm) : (p.orderKey s o).Grows := by
  refine (grows_elementFunc o.key).bind fun f => ?_
  cases o.direction <;> exact grows_pure _

theorem grows_orderBy (order : List OrderTerm) : (p.orderBy s order).Grows := by
  rw [orderBy]
  split_ifs
  · exact grows_pure p
  · exact (Grows.mapM fun o _ => grows_orderKey o).bind fun ts => grows_pure _

theorem grows_compileCount (clause : String) (e : Expr) :
    (e.compileCount s.engine s.params clause).Grows := by
  refine (Expr.grows_compile e _).bind fun t => ?_
  split
  · split_ifs
    · exact grows_pure _
    · exact grows_throw _
  · exact grows_throw _

theorem grows_counted {clause : String} {op : Term → Term → Term} (e? : Option Expr) :
    (p.counted s clause op e?).Grows := by
  cases e? with
  | none => exact grows_pure p
  | some e => exact (grows_compileCount _ e).bind fun c => grows_pure _

theorem grows_distinct (d : Distinct) : (p.distinct d).Grows := by
  cases d with
  | off => exact grows_pure p
  | flag on =>
      cases on with
      | false => exact grows_pure p
      | true =>
          rw [distinct]
          split_ifs <;> exact grows_pure _
  | byExpr e => exact grows_throw _

theorem grows_join (j : Join) : (p.join s j).Grows := by
  have hlink : (p.pairByLink s j.source).Grows := by
    refine (grows_lift _).bind fun b => ?_
    refine (Grows.lambda fun row => (grows_lift _).bind fun slot => grows_pure _).bind fun f => ?_
    split_ifs <;> exact grows_pure _
  have hpredicate : (p.pairByPredicate s j).Grows :=
    (Grows.lambda₂ fun l r => Expr.grows_compile _ _).bind fun f => grows_pure _
  rw [join]
  split_ifs
  · exact hlink.bind fun t => (Grows.lambda fun u => grows_pure _).bind fun f => grows_pure _
  · exact hpredicate.bind fun t => (Grows.lambda fun u => grows_pure _).bind fun f => grows_pure _

theorem grows_joins (js : List Join) : (p.joins s js).Grows := by
  induction js generalizing p with
  | nil => exact grows_pure p
  | cons j js ih =>
      rw [joins, List.foldlM_cons]
      exact (grows_join j).bind fun q => ih

theorem grows_flattened : p.flattened.Grows := by
  rw [flattened]
  split_ifs
  · exact (Grows.lambda fun group => grows_pure _).bind fun f => grows_pure _
  · exact grows_pure p

theorem grows_selectEntity (r : Nat) : (p.selectEntity r).Grows := by
  rw [selectEntity]
  by_cases hr : p.width ≤ r
  · rw [if_pos hr]
    exact grows_throw _
  · rw [if_neg hr]
    refine grows_flattened.bind fun q => ?_
    split_ifs
    · exact grows_pure q
    · exact (Grows.lambda fun row => grows_lift _).bind fun f => grows_pure _

theorem grows_selectShape (shape : Expr) : (p.selectShape s shape).Grows := by
  rw [selectShape]
  split_ifs
  · refine (Expr.grows_compile shape _).bind fun t => ?_
    split_ifs <;> exact grows_pure _
  · exact (grows_elementFunc shape).bind fun f => grows_pure _

theorem grows_select (projection : Expr) (preloads : List Nat) :
    (p.select s projection preloads).Grows := by
  rcases hs : shape? projection preloads with _ | shape
  · obtain ⟨r, rfl, rfl⟩ := shape?_eq_none.mp hs
    exact grows_selectEntity r
  · rw [select_of_shape hs]
    exact grows_selectShape shape

theorem grows_ofQuery (q : Query) : (ofQuery s q).Grows := by
  by_cases hd : ∃ e, q.distinct = .byExpr e
  · obtain ⟨e, hd⟩ := hd
    rw [ofQuery_byExpr hd]
    exact grows_throw _
  · rw [ofQuery_eq fun e h => hd ⟨e, h⟩]
    refine (grows_joins _).bind fun p₁ => (grows_filterAll _).bind fun p₂ => ?_
    refine (grows_groupBy _).bind fun p₃ => (grows_having _).bind fun p₄ => ?_
    refine (grows_orderBy _).bind fun p₅ => (grows_counted _).bind fun p₆ => ?_
    refine (grows_counted _).bind fun p₇ => (grows_select _ _).bind fun p₈ => ?_
    exact grows_distinct _

theorem yields_writeScope {q : Query} :
    (writeScope s q).Yields n p' k ↔
      clauseNotForWrites? q = none ∧
        ((ofSource s q.source).filterAll s q.filters).Yields n p' k := by
  rw [writeScope]
  cases clauseNotForWrites? q with
  | none => simp
  | some clause => simp

theorem grows_writeScope (q : Query) : (writeScope s q).Grows := by
  rw [writeScope]
  split
  · exact grows_throw _
  · exact grows_filterAll _

end DocQuery.Pipeline
