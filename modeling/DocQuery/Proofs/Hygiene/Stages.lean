import DocQuery.Compiler
import DocQuery.Pipeline.Session
import DocQuery.Proofs.Hygiene.Expr
import DocQuery.Proofs.Pipeline.Stages

/-!
# Variables in pipelines

Every clause wraps the term of the pipeline into operations whose other
arguments are fresh. The one exception is an aggregate over a whole sequence: it
puts the sequence, functions included, in every place where it is aggregated.
-/

namespace DocQuery

namespace Pipeline

open Compile Term

variable {s : Setting} {p p' : Pipeline} {n k : Nat}

theorem fresh_elementFunc {e : Expr} {f : Term} (h : (p.elementFunc s e).Yields n f k) :
    Fresh n k [f] := by
  refine Expr.fresh_lambda (fun element => ?_) h
  rw [elementScope]
  split_ifs <;> rfl

theorem wellBuilt_table (db : Option String) (name : String) :
    (table db name).WellBuilt [] n := by
  cases db <;> simp [table, Term.string, Kind.isGeneric]

theorem binders_table (db : Option String) (name : String) : (table db name).binders = [] := by
  cases db <;> simp [table, Term.string]

theorem fresh_table (db : Option String) (name : String) : Fresh n n [table db name] :=
  .static (by simpa using wellBuilt_table db name) (by simpa using binders_table db name)

theorem fresh_count {e : Expr} {clause : String} {t : Term}
    (h : (e.compileCount s.engine s.params clause).Yields n t k) : Fresh n k [t] := by
  obtain ⟨m, hm, -, rfl⟩ := Expr.yields_compileCount.mp h
  exact ⟨by simp, by simpa using Drawn.nil ((Expr.grows_compile e _).le hm)⟩

theorem extends_filterAll {conditions : List Expr}
    (h : (p.filterAll s conditions).Yields n p' k) : Extends n k p.term p'.term := by
  rcases yields_filterAll.mp h with ⟨-, rfl, rfl⟩ | ⟨-, f, hf, rfl⟩
  · exact .refl _ _
  · exact .call rfl (fresh_elementFunc hf)

theorem extends_groupBy {keys : List Expr} (h : (p.groupBy s keys).Yields n p' k) :
    Extends n k p.term p'.term := by
  rcases yields_groupBy.mp h with ⟨-, rfl, rfl⟩ | ⟨-, f, hf, rfl⟩
  · exact .refl _ _
  · have hgroup : Extends n k p.term (p.term.group f) := .call rfl (fresh_elementFunc hf)
    exact hgroup.trans (.call rfl (.static (by simp) (by simp)))

theorem extends_having {conditions : List Expr} (h : (p.having s conditions).Yields n p' k) :
    Extends n k p.term p'.term :=
  extends_filterAll (yields_having.mp h).1

theorem fresh_orderKey {o : OrderTerm} {t : Term} (h : (p.orderKey s o).Yields n t k) :
    Fresh n k [t] := by
  obtain ⟨f, hf, rfl⟩ := yields_orderKey.mp h
  obtain ⟨hbuilt, hdrawn⟩ := fresh_elementFunc hf
  cases o.direction with
  | ascending =>
      exact ⟨by simpa [Term.asc, Kind.isGeneric] using hbuilt, by simpa [Term.asc] using hdrawn⟩
  | descending =>
      exact ⟨by simpa [Term.desc, Kind.isGeneric] using hbuilt, by simpa [Term.desc] using hdrawn⟩

theorem extends_orderBy {order : List OrderTerm} (h : (p.orderBy s order).Yields n p' k) :
    Extends n k p.term p'.term := by
  rcases yields_orderBy.mp h with ⟨-, rfl, rfl⟩ | ⟨-, ts, hts, rfl⟩
  · exact .refl _ _
  · exact .call rfl (hts.fresh fun o _ n t k => fresh_orderKey)

theorem extends_counted {clause : String} {op : Term → Term → Term} {e? : Option Expr}
    (hop : ∀ {t u n k}, Fresh n k [u] → Extends n k t (op t u))
    (h : (p.counted s clause op e?).Yields n p' k) : Extends n k p.term p'.term := by
  rcases yields_counted.mp h with ⟨-, rfl, rfl⟩ | ⟨e, c, -, hc, rfl⟩
  · exact .refl _ _
  · exact hop (fresh_count hc)

theorem extends_offset {e? : Option Expr} (h : (p.offset s e?).Yields n p' k) :
    Extends n k p.term p'.term :=
  extends_counted (.call rfl) h

theorem extends_limit {e? : Option Expr} (h : (p.limit s e?).Yields n p' k) :
    Extends n k p.term p'.term :=
  extends_counted (.call rfl) h

theorem extends_distinct {d : Distinct} (h : (p.distinct d).Yields n p' k) :
    Extends n k p.term p'.term := by
  obtain ⟨rfl, hp'⟩ := yields_distinct.mp h
  have hdistinct : Extends k k p.term p.term.distinct :=
    .call rfl (.static (by simp) (by simp))
  cases d with
  | off =>
      obtain rfl := hp'
      exact .refl _ _
  | flag on =>
      cases on with
      | false =>
          obtain rfl := hp'
          exact .refl _ _
      | true =>
          obtain rfl := hp'
          split_ifs
          · exact .refl _ _
          · exact hdistinct
  | byExpr e => exact hp'.elim

/-! ## Joins -/

theorem fresh_slot {r width : Nat} {t : Term} {f : Term → Term}
    (h : Scope.slot (.var n) width r = .ok t)
    (hf : ∀ {u sight k}, (f u).WellBuilt sight k ↔ u.WellBuilt sight k)
    (hb : ∀ u, (f u).binders = u.binders) : Fresh n (n + 1) [.func [n] (f t)] := by
  have hvar : (Term.var n).WellBuilt [n] (n + 1) := wellBuilt_var (List.mem_singleton_self n)
  refine .func₁ (hf.mpr ((Scope.inherited_wellBuilt _ _).slot hvar h)) ?_
  rw [hb, Scope.inherited_noBinders.slot rfl h]
  exact .nil (Nat.le_refl _)

theorem extends_paired {j : Join} {t : Term} (h : (p.paired s j).Yields n t k) :
    Extends n k p.term t := by
  rw [paired] at h
  split_ifs at h
  · obtain ⟨r, link, slot, -, hslot, rfl, rfl⟩ := yields_pairByLink.mp h
    -- the table has no functions; the key draws its row
    have hkey : Fresh n (n + 1) [.func [n] (slot.bracket link.leftKey)] :=
      fresh_slot (f := fun t => t.bracket link.leftKey) hslot
        (by simp [Term.bracket, Term.string, Kind.isGeneric])
        (by simp [Term.bracket, Term.string])
    have hargs := hkey.cons (fresh_table s.config.database j.source.table)
    split_ifs
    · exact .call rfl hargs
    · refine .op rfl ?_
      exact hargs.append (.static (by simp [Term.string]) (by simp [Term.string]))
  · obtain ⟨body, hbody, rfl⟩ := yields_pairByPredicate.mp h
    have hbuilt : body.WellBuilt [n, n + 1] k := by
      refine Expr.wellBuilt_of_yields hbody (by simp) ?_
      simpa [Scope.terms] using And.intro (wellBuilt_var (by simp)) (wellBuilt_var (by simp))
    have hdrawn : Drawn (n + 2) k body.binders :=
      Expr.drawn_of_yields hbody (by simp [Scope.terms])
    exact .call rfl ((fresh_table _ _).cons (.func₂ hbuilt hdrawn))

theorem fresh_merge (width : Nat) : Fresh n (n + 1) [.func [n] (merge width (.var n))] := by
  have hvar : (Term.var n).WellBuilt [n] (n + 1) := wellBuilt_var (List.mem_singleton_self n)
  refine .func₁ ?_ ?_
  · rw [merge]
    split_ifs <;> simp [Term.bracket, Term.append, Term.string, Kind.isGeneric, hvar]
  · have hnone : (merge width (.var n)).binders = [] := by
      rw [merge]
      split_ifs <;> simp [Term.bracket, Term.append, Term.string]
    rw [hnone]
    exact .nil (Nat.le_refl _)

theorem extends_join {j : Join} (h : (p.join s j).Yields n p' k) :
    Extends n k p.term p'.term := by
  obtain ⟨t, m, ht, rfl, rfl⟩ := yields_join.mp h
  exact (extends_paired ht).trans (.call rfl (fresh_merge p.width))

theorem extends_joins {js : List Join} (h : (p.joins s js).Yields n p' k) :
    Extends n k p.term p'.term := by
  induction js generalizing p n with
  | nil =>
      obtain ⟨rfl, rfl⟩ := yields_joins_nil.mp h
      exact .refl _ _
  | cons j js ih =>
      obtain ⟨q, m, hq, hp'⟩ := yields_joins_cons.mp h
      exact (extends_join hq).trans (ih hp')

/-! ## Projections -/

theorem extends_flattened (h : p.flattened.Yields n p' k) : Extends n k p.term p'.term := by
  rcases yields_flattened.mp h with ⟨-, rfl, rfl⟩ | ⟨-, rfl, rfl⟩
  · exact .refl _ _
  · have hvar : (Term.var n).WellBuilt [n] (n + 1) := wellBuilt_var (List.mem_singleton_self n)
    refine .call rfl (.func₁ ?_ ?_)
    · simpa [Term.bracket, Term.string, Kind.isGeneric] using hvar
    · simpa [Term.bracket, Term.string] using Drawn.nil (Nat.le_refl _)

theorem extends_selectEntity {r : Nat} (h : (p.selectEntity r).Yields n p' k) :
    Extends n k p.term p'.term := by
  obtain ⟨-, q, m, hq, ⟨-, rfl, rfl⟩ | ⟨-, slot, hslot, rfl, rfl⟩⟩ := yields_selectEntity.mp h
  · exact extends_flattened hq
  · exact (extends_flattened hq).trans (.call rfl (fresh_slot hslot Iff.rfl fun _ => rfl))

/-- The whole sequence stands in the projection: its functions may be there more
than once. -/
theorem wellBuilt_selectTotal {shape : Expr} (h : (p.selectTotal s shape).Yields n p' k)
    (hp : p.term.WellBuilt [] n) : p'.term.WellBuilt [] k := by
  obtain ⟨t, ht, rfl⟩ := yields_selectTotal.mp h
  have hbuilt : t.WellBuilt [] k :=
    Expr.wellBuilt_of_yields ht (by simp) (by simpa [Scope.terms] using hp)
  split_ifs
  · simpa using hbuilt
  · exact hbuilt

theorem containsAggregate_of_isEntity {e : Expr} (h : e.isEntity) :
    e.containsAggregate = false := by
  cases e with
  | entity r => rfl
  | _ => exact absurd h Bool.false_ne_true

theorem containsAggregate_slots (items : List Expr) (preloads : List Nat) :
    (slots items preloads).any Expr.containsAggregate = items.any Expr.containsAggregate := by
  have hpreloaded : (preloads.map Expr.entity).any Expr.containsAggregate = false := by
    rw [List.any_map, List.any_eq_false]
    exact fun r _ => Bool.false_ne_true
  rw [(slots_perm items preloads).any_eq, List.any_append, hpreloaded, Bool.or_false]

theorem containsAggregate_of_shape {e shape : Expr} {preloads : List Nat}
    (h : shape? e preloads = some shape) : shape.containsAggregate = e.containsAggregate := by
  cases e with
  | entity r =>
      simp only [shape?] at h
      split_ifs at h
      cases h
      show Expr.anyAggregate _ = _
      rw [Expr.anyAggregate_eq, containsAggregate_slots]
      rfl
  | list items | tuple items =>
      cases h
      simp only [Expr.containsAggregate, Expr.anyAggregate_eq, containsAggregate_slots]
  | _ => cases h; rfl

/-- A projection that aggregates where nothing is grouped. -/
def Totals (keys : List Expr) (projection : Expr) : Prop :=
  keys = [] ∧ projection.containsAggregate

theorem wellBuilt_selectShape {shape : Expr} (h : (p.selectShape s shape).Yields n p' k)
    (hp : p.term.WellBuilt [] n) : p'.term.WellBuilt [] k := by
  rcases yields_selectShape.mp h with ⟨-, htotal⟩ | ⟨-, f, hf, rfl⟩
  · exact wellBuilt_selectTotal htotal hp
  · have hext : Extends n k p.term (p.term.map f) := .call rfl (fresh_elementFunc hf)
    exact hext.wellBuilt hp

theorem wellBuilt_select {projection : Expr} {preloads : List Nat}
    (h : (p.select s projection preloads).Yields n p' k) (hp : p.term.WellBuilt [] n) :
    p'.term.WellBuilt [] k := by
  rcases hs : shape? projection preloads with _ | shape
  · obtain ⟨r, rfl, rfl⟩ := shape?_eq_none.mp hs
    exact (extends_selectEntity h).wellBuilt hp
  · rw [select_of_shape hs] at h
    exact wellBuilt_selectShape h hp

theorem extends_select {projection : Expr} {preloads : List Nat}
    (h : (p.select s projection preloads).Yields n p' k)
    (hnot : ¬ Totals p.groupKeys projection) : Extends n k p.term p'.term := by
  rcases hs : shape? projection preloads with _ | shape
  · obtain ⟨r, rfl, rfl⟩ := shape?_eq_none.mp hs
    exact extends_selectEntity h
  · rw [select_of_shape hs] at h
    rcases yields_selectShape.mp h with ⟨htotal, -⟩ | ⟨-, f, hf, rfl⟩
    · rw [containsAggregate_of_shape hs, Bool.and_eq_true, Bool.not_eq_true',
        isGrouped_eq_false] at htotal
      exact absurd htotal hnot
    · exact .call rfl (fresh_elementFunc hf)

/-! ## Queries and writes -/

/-- The pipeline before the projection and the one after it. -/
theorem yields_ofQuery {q : Query} (h : (ofQuery s q).Yields n p' k) :
    ∃ (before after : Pipeline) (m j : Nat),
      Extends n m (ofSource s q.source).term before.term ∧ before.groupKeys = q.groupKeys ∧
        (before.select s q.projection q.preloads).Yields m after j ∧
          Extends j k after.term p'.term := by
  by_cases hd : ∃ e, q.distinct = .byExpr e
  · obtain ⟨e, hd⟩ := hd
    rw [ofQuery_byExpr hd] at h
    exact absurd h not_yields_throw
  rw [ofQuery_eq fun e h => hd ⟨e, h⟩] at h
  simp only [yields_bind] at h
  obtain ⟨p₁, n₁, h₁, p₂, n₂, h₂, p₃, n₃, h₃, p₄, n₄, h₄, p₅, n₅, h₅, p₆, n₆, h₆, p₇, n₇, h₇,
    p₈, n₈, h₈, h₉⟩ := h
  -- the keys before the projection decide whether it is a total
  have hkeys₂ : p₂.groupKeys = [] := (sameElements_filterAll h₂).2.trans (relations_joins h₁).2
  have hkeys₃ : p₃.groupKeys = q.groupKeys := (groupKeys_groupBy hkeys₂ h₃).2
  have hsame : p₃.SameElements p₇ :=
    (sameElements_having h₄).trans ((sameElements_orderBy h₅).trans
      ((sameElements_counted h₆).trans (sameElements_counted h₇)))
  refine ⟨p₇, p₈, n₇, n₈, ?_, hsame.2.trans hkeys₃, h₈, extends_distinct h₉⟩
  calc
    Extends n n₂ _ p₂.term := (extends_joins h₁).trans (extends_filterAll h₂)
    Extends n₂ n₄ p₂.term p₄.term := (extends_groupBy h₃).trans (extends_having h₄)
    Extends n₄ n₅ p₄.term p₅.term := extends_orderBy h₅
    Extends n₅ n₇ p₅.term p₇.term := (extends_offset h₆).trans (extends_limit h₇)

theorem wellBuilt_ofQuery {q : Query} (h : (ofQuery s q).Yields n p' k) :
    p'.term.WellBuilt [] k := by
  obtain ⟨before, after, m, j, hbefore, -, hselect, hafter⟩ := yields_ofQuery h
  refine hafter.wellBuilt (wellBuilt_select hselect (hbefore.wellBuilt ?_))
  exact wellBuilt_table _ _

/-- Without a total, the term of a query is fresh as a whole. -/
theorem extends_ofQuery {q : Query} (h : (ofQuery s q).Yields n p' k)
    (hnot : ¬ Totals q.groupKeys q.projection) :
    Extends n k (ofSource s q.source).term p'.term := by
  obtain ⟨before, after, m, j, hbefore, hkeys, hselect, hafter⟩ := yields_ofQuery h
  rw [← hkeys] at hnot
  calc
    Extends n m _ before.term := hbefore
    Extends m j before.term after.term := extends_select hselect hnot
    Extends j k after.term p'.term := hafter

theorem extends_writeScope {q : Query} (h : (writeScope s q).Yields n p' k) :
    Extends n k (ofSource s q.source).term p'.term :=
  extends_filterAll (yields_writeScope.mp h).2

end Pipeline

end DocQuery
