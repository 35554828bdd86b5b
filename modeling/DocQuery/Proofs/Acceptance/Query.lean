import DocQuery.Compiler
import DocQuery.Proofs.Acceptance.Expr
import DocQuery.Proofs.Pipeline.Stages
import Mathlib.Data.List.Nodup
import Mathlib.Data.List.Range
import Mathlib.Data.Prod.Basic

/-!
# Which queries compile

`Query.WellFormed` says clause by clause what a query needs from the catalog, the
engine and the parameters, without the compiler. The main result is that a query
compiles exactly when it is well-formed.
-/

namespace DocQuery

/-! ## Well-formed queries -/

/-- An association of some schema gives the link, from one side or the other. -/
def Catalog.Declares (c : Catalog) (l : Link) : Prop :=
  ∃ s ∈ c.schemas, ∃ a ∈ s.associations, l ∈ a.links s.name

/-- The link could back the join: it leads from the schema of relation `i` to the
joined one. -/
def Join.LinkedBy (c : Catalog) (earlier : List (Option String)) (j : Join)
    (i : Nat) (l : Link) : Prop :=
  c.Declares l ∧ earlier[i]? = some (some l.left) ∧ j.source.schema = some l.right

/-- A join by association needs one link and no more; a join by a condition
reads the earlier relations and the joined one. -/
def Join.Fits (c : Catalog) (engine : RegexEngine) (params : Params)
    (earlier : List (Option String)) (j : Join) : Prop :=
  if j.condition.isTrivial then ∃! b : Nat × Link, j.LinkedBy c earlier b.1 b.2
  else j.condition.FitsRow engine params (earlier.length + 1)

/-- Fits the elements of a pipeline: groups if there are keys, else rows. -/
def Expr.FitsElement (engine : RegexEngine) (params : Params) (keys : List Expr) (width : Nat)
    (e : Expr) : Prop :=
  if keys = [] then e.FitsRow engine params width else e.FitsGroup engine params keys width

namespace Query

/-- The schemas of the source and of the joined tables. -/
def relations (q : Query) : List (Option String) :=
  q.source.schema :: q.joins.map (·.source.schema)

def width (q : Query) : Nat := 1 + q.joins.length

/-- Whole rows are picked from a relation of the record. Anything else is
computed for each element, except that without groups an aggregate ranges over
the whole sequence and rows can be read inside aggregates only. -/
def FitsProjection (engine : RegexEngine) (params : Params) (q : Query) : Prop :=
  match Pipeline.shape? q.projection q.preloads with
  | none => ∀ r, q.projection = .entity r → r < q.width
  | some shape =>
    if q.groupKeys = [] ∧ shape.containsAggregate then shape.FitsGroup engine params [] q.width
    else shape.FitsElement engine params q.groupKeys q.width

structure WellFormed (c : Catalog) (engine : RegexEngine) (params : Params) (q : Query) :
    Prop where
  distinct : ∀ e, q.distinct ≠ .byExpr e
  joins : ∀ (k : Nat) (j : Join), q.joins[k]? = some j →
    j.Fits c engine params (q.relations.take (k + 1))
  filters : ∀ e ∈ q.filters, e.FitsRow engine params q.width
  groupKeys : ∀ e ∈ q.groupKeys, e.FitsRow engine params q.width
  /-- The conditions fit as one conjunction, which may itself be a key. -/
  having : q.having ≠ [] →
    q.groupKeys ≠ [] ∧ (Expr.and q.having).FitsGroup engine params q.groupKeys q.width
  order : ∀ o ∈ q.order, o.key.FitsElement engine params q.groupKeys q.width
  offset : ∀ e, q.offset = some e → e.IsCount params
  limit : ∀ e, q.limit = some e → e.IsCount params
  projection : q.FitsProjection engine params

theorem length_relations (q : Query) : q.relations.length = q.width := by
  simp [relations, width, Nat.add_comm]

theorem wellFormed_iff {c : Catalog} {engine : RegexEngine} {params : Params} {q : Query}
    (hdistinct : ∀ e, q.distinct ≠ .byExpr e) :
    q.WellFormed c engine params ↔
      (∀ (k : Nat) (j : Join), q.joins[k]? = some j →
        j.Fits c engine params (q.relations.take (k + 1))) ∧
      (∀ e ∈ q.filters, e.FitsRow engine params q.width) ∧
      (∀ e ∈ q.groupKeys, e.FitsRow engine params q.width) ∧
      (q.having ≠ [] →
        q.groupKeys ≠ [] ∧ (Expr.and q.having).FitsGroup engine params q.groupKeys q.width) ∧
      (∀ o ∈ q.order, o.key.FitsElement engine params q.groupKeys q.width) ∧
      (∀ e, q.offset = some e → e.IsCount params) ∧
      (∀ e, q.limit = some e → e.IsCount params) ∧
      q.FitsProjection engine params := by
  constructor
  · intro h
    exact ⟨h.joins, h.filters, h.groupKeys, h.having, h.order, h.offset, h.limit, h.projection⟩
  · rintro ⟨joins, filters, groupKeys, having, order, offset, limit, projection⟩
    exact ⟨hdistinct, joins, filters, groupKeys, having, order, offset, limit, projection⟩

end Query

/-! ## Joins -/

namespace Catalog

variable {c : Catalog} {relations : List (Option String)}

theorem mem_candidates {right : String} {b : Nat × Link} :
    b ∈ c.candidates relations right ↔
      c.Declares b.2 ∧ relations[b.1]? = some (some b.2.left) ∧ b.2.right = right := by
  obtain ⟨i, l⟩ := b
  simp only [candidates, List.mem_flatMap, Prod.exists, List.mem_zipIdx_iff_getElem?]
  constructor
  · rintro ⟨left?, j, hj, hmem⟩
    cases left? with
    | none => simp at hmem
    | some left =>
        obtain ⟨l', hl', heq⟩ := List.mem_map.mp hmem
        cases heq
        obtain ⟨hdecl, rfl, rfl⟩ := mem_linksBetween.mp hl'
        exact ⟨hdecl, hj, rfl⟩
  · rintro ⟨hdecl, hi, rfl⟩
    refine ⟨some l.left, i, hi, ?_⟩
    exact List.mem_map.mpr ⟨l, mem_linksBetween.mpr ⟨hdecl, rfl, rfl⟩, rfl⟩

theorem nodup_candidates (right : String) : (c.candidates relations right).Nodup := by
  rw [candidates, List.nodup_flatMap]
  constructor
  · rintro ⟨left? | left, i⟩ -
    · exact List.nodup_nil
    · exact (c.nodup_linksBetween left right).map (Prod.mk_right_injective i)
  · -- different relations give candidates with different positions
    have hpos : (relations.zipIdx.map Prod.snd).Pairwise (· ≠ ·) := by
      rw [List.zipIdx_map_snd]
      exact List.nodup_range'
    refine (List.pairwise_map.mp hpos).imp ?_
    rintro ⟨a?, i⟩ ⟨b?, j⟩ hij x hx hy
    have hi : x.1 = i := by cases a? <;> simp at hx; grind
    have hj : x.1 = j := by cases b? <;> simp at hy; grind
    exact hij (hi.symm.trans hj)

theorem existsUnique_mem_iff {α : Type} {xs : List α} (h : xs.Nodup) :
    (∃! x, x ∈ xs) ↔ ∃ x, xs = [x] := by
  constructor
  · rintro ⟨x, hx, honly⟩
    refine ⟨x, ?_⟩
    match xs with
    | [] => exact absurd hx List.not_mem_nil
    | [y] => rw [honly y (List.mem_singleton_self y)]
    | y :: z :: rest =>
        have hy := honly y List.mem_cons_self
        have hz := honly z (List.mem_cons_of_mem _ List.mem_cons_self)
        have hne := (List.nodup_cons.mp h).1
        rw [hy, hz] at hne
        exact absurd List.mem_cons_self hne
  · rintro ⟨x, rfl⟩
    exact ⟨x, List.mem_singleton_self x, fun y hy => List.mem_singleton.mp hy⟩

theorem resolve_eq_ok {source : Source} {b : Nat × Link} :
    c.resolve relations source = .ok b ↔
      ∃ right, source.schema = some right ∧ c.candidates relations right = [b] := by
  cases hs : source.schema with
  | none => simp [resolve, hs]
  | some right =>
      simp only [resolve, hs, Option.some_inj, exists_eq_left']
      rcases c.candidates relations right with _ | ⟨x, _ | ⟨y, rest⟩⟩ <;> simp

theorem lt_of_resolve {source : Source} {r : Nat} {link : Link}
    (h : c.resolve relations source = .ok (r, link)) : r < relations.length := by
  obtain ⟨right, -, hcand⟩ := resolve_eq_ok.mp h
  have hmem : (r, link) ∈ c.candidates relations right := by simp [hcand]
  obtain ⟨-, hr, -⟩ := mem_candidates.mp hmem
  exact (List.getElem?_eq_some_iff.mp hr).1

theorem resolve_ok_iff {j : Join} :
    (∃ b, c.resolve relations j.source = .ok b) ↔
      ∃! b : Nat × Link, j.LinkedBy c relations b.1 b.2 := by
  simp only [resolve_eq_ok]
  cases hs : j.source.schema with
  | none => simp [hs, Join.LinkedBy, ExistsUnique]
  | some right =>
      have hmem : ∀ b : Nat × Link,
          j.LinkedBy c relations b.1 b.2 ↔ b ∈ c.candidates relations right := by
        intro b
        rw [Join.LinkedBy, mem_candidates, hs, Option.some_inj, eq_comm (a := right)]
      simp only [hmem, existsUnique_mem_iff (nodup_candidates right), Option.some_inj,
        exists_eq_left']

end Catalog

namespace Pipeline

open Compile DocQuery.Expr

variable {s : Setting} {p : Pipeline}

theorem acceptedIff_pairByLink {j : Join} :
    (p.pairByLink s j.source).AcceptedIff
      (∃! b : Nat × Link, j.LinkedBy s.catalog p.relations b.1 b.2) := by
  intro n
  rw [← Catalog.resolve_ok_iff]
  simp only [yields_pairByLink]
  constructor
  · rintro ⟨t, k, r, link, slot, hr, -⟩
    exact ⟨(r, link), hr⟩
  · rintro ⟨⟨r, link⟩, hr⟩
    -- a candidate names one of the relations, so its slot is there
    obtain ⟨slot, hslot⟩ : ∃ t, Scope.slot (.var n) p.width r = .ok t :=
      Scope.slot_ok_iff.mpr (Catalog.lt_of_resolve hr)
    exact ⟨_, n + 1, r, link, slot, hr, hslot, rfl, rfl⟩

theorem acceptedIff_join (j : Join) :
    (p.join s j).AcceptedIff (j.Fits s.catalog s.engine s.params p.relations) := by
  have hpaired : (p.paired s j).AcceptedIff (j.Fits s.catalog s.engine s.params p.relations) := by
    rw [paired, Join.Fits]
    split_ifs
    · exact acceptedIff_pairByLink
    · exact (AcceptedIff.lambda₂ fun l r => acceptedIff_compile_row rfl j.condition).bind_pure
  intro n
  rw [← hpaired n]
  simp only [yields_join]
  constructor
  · rintro ⟨p', k, t, m, ht, -⟩
    exact ⟨t, m, ht⟩
  · rintro ⟨t, m, ht⟩
    exact ⟨_, _, t, m, ht, rfl, rfl⟩

theorem acceptedIff_joins (js : List Join) :
    (p.joins s js).AcceptedIff (∀ (k : Nat) (j : Join), js[k]? = some j →
      j.Fits s.catalog s.engine s.params (p.relations ++ (js.take k).map (·.source.schema))) := by
  induction js generalizing p with
  | nil =>
      rw [joins, List.foldlM_nil]
      exact (acceptedIff_pure p).congr (by simp)
  | cons j js ih =>
      have hcons : p.joins s (j :: js) = p.join s j >>= fun q => q.joins s js := List.foldlM_cons
      -- the joins that follow also see the table of this one
      have htail : ∀ q n k, (p.join s j).Yields n q k → (q.joins s js).AcceptedIff
          (∀ (k : Nat) (i : Join), js[k]? = some i → i.Fits s.catalog s.engine s.params
            (p.relations ++ [j.source.schema] ++ (js.take k).map (·.source.schema))) := by
        intro q n k hq
        obtain ⟨t, m, -, -, rfl⟩ := yields_join.mp hq
        exact ih
      rw [hcons]
      refine ((acceptedIff_join j).bind htail).congr ?_
      constructor
      · rintro ⟨hj, hjs⟩ (_ | k) i hi
        · obtain rfl : j = i := by simpa using hi
          simpa using hj
        · simpa using hjs k i (by simpa using hi)
      · intro h
        refine ⟨by simpa using h 0 j rfl, fun k i hi => ?_⟩
        simpa using h (k + 1) i (by simpa using hi)

theorem acceptedIff_elementFunc (e : Expr) :
    (p.elementFunc s e).AcceptedIff (e.FitsElement s.engine s.params p.groupKeys p.width) := by
  refine AcceptedIff.lambda fun element => ?_
  rw [elementScope, FitsElement, isGrouped]
  cases hk : p.groupKeys with
  | nil => exact acceptedIff_compile_row rfl e
  | cons key rest => exact acceptedIff_compile_group rfl rfl e

theorem fitsRow_of_operands {engine : RegexEngine} {params : Params} {width : Nat} {e : Expr}
    (h : e.StandsInRow engine params width) :
    e.FitsRow engine params width ↔ ∀ x ∈ e.operands, x.FitsRow engine params width :=
  fitsRow_iff.trans (and_iff_right h)

theorem acceptedIff_filterAll (hp : p.groupKeys = []) (conditions : List Expr) :
    (p.filterAll s conditions).AcceptedIff
      (∀ e ∈ conditions, e.FitsRow s.engine s.params p.width) := by
  cases conditions with
  | nil => exact (acceptedIff_pure p).congr (by simp)
  | cons c cs =>
      refine (acceptedIff_elementFunc (.and (c :: cs))).bind_pure.congr ?_
      rw [FitsElement, if_pos hp]
      exact fitsRow_of_operands trivial

theorem acceptedIff_groupBy (hp : p.groupKeys = []) (keys : List Expr) :
    (p.groupBy s keys).AcceptedIff (∀ e ∈ keys, e.FitsRow s.engine s.params p.width) := by
  cases keys with
  | nil => exact (acceptedIff_pure p).congr (by simp)
  | cons c cs =>
      refine (acceptedIff_elementFunc (.list (c :: cs))).bind_pure.congr ?_
      rw [FitsElement, if_pos hp]
      exact fitsRow_of_operands trivial

theorem acceptedIff_having (conditions : List Expr) :
    (p.having s conditions).AcceptedIff (conditions ≠ [] → p.groupKeys ≠ [] ∧
      (Expr.and conditions).FitsGroup s.engine s.params p.groupKeys p.width) := by
  cases conditions with
  | nil => exact (acceptedIff_pure p).congr (by simp)
  | cons c cs =>
      by_cases hg : p.groupKeys = []
      · have hnot : p.isGrouped = false := isGrouped_eq_false.mpr hg
        simp only [having, hnot]
        exact (acceptedIff_throw _).congr (by simp [hg])
      · have his : p.isGrouped = true := by simp [isGrouped, hg]
        simp only [having, his]
        refine (acceptedIff_elementFunc (.and (c :: cs))).bind_pure.congr ?_
        simp [FitsElement, hg]

theorem acceptedIff_orderBy (order : List OrderTerm) :
    (p.orderBy s order).AcceptedIff
      (∀ o ∈ order, o.key.FitsElement s.engine s.params p.groupKeys p.width) := by
  cases order with
  | nil => exact (acceptedIff_pure p).congr (by simp)
  | cons o os =>
      refine (AcceptedIff.mapM fun o _ => ?_).bind_pure
      have hkey := acceptedIff_elementFunc (s := s) (p := p) o.key
      intro n
      rw [← hkey n]
      simp only [yields_orderKey]
      exact ⟨fun ⟨_, k, f, hf, _⟩ => ⟨f, k, hf⟩, fun ⟨f, k, hf⟩ => ⟨_, k, f, hf, rfl⟩⟩

theorem acceptedIff_counted (clause : String) (op : Term → Term → Term) (e? : Option Expr) :
    (p.counted s clause op e?).AcceptedIff (∀ e, e? = some e → e.IsCount s.params) := by
  cases e? with
  | none => exact (acceptedIff_pure p).congr (by simp)
  | some e => exact (acceptedIff_compileCount clause e).bind_pure.congr (by simp)

theorem acceptedIff_selectShape (shape : Expr) :
    (p.selectShape s shape).AcceptedIff
      (if p.groupKeys = [] ∧ shape.containsAggregate then
        shape.FitsGroup s.engine s.params [] p.width
      else shape.FitsElement s.engine s.params p.groupKeys p.width) := by
  have hcond : (!p.isGrouped && shape.containsAggregate) = true ↔
      p.groupKeys = [] ∧ shape.containsAggregate := by
    simp [isGrouped]
  rw [selectShape]
  split_ifs with h h' h'
  · have htotal : (shape.compile s.engine s.params (.total p.term p.width)).AcceptedIff
        (shape.FitsGroup s.engine s.params [] p.width) := acceptedIff_compile_group rfl rfl shape
    rw [selectTotal]
    split_ifs
    · exact htotal.bind_pure
    · exact htotal.bind_pure
  · exact absurd (hcond.mp h) h'
  · exact absurd (hcond.mpr h') h
  · exact (acceptedIff_elementFunc shape).bind_pure

theorem acceptedIff_selectEntity (r : Nat) : (p.selectEntity r).AcceptedIff (r < p.width) := by
  intro n
  simp only [yields_selectEntity]
  constructor
  · rintro ⟨p', k, hr, -⟩
    exact hr
  · intro hr
    -- groups are taken apart first, which keeps the relations
    obtain ⟨q, m, hq, hwidth⟩ : ∃ q m, p.flattened.Yields n q m ∧ q.width = p.width := by
      simp only [yields_flattened]
      cases hg : p.isGrouped with
      | false => exact ⟨p, n, Or.inl ⟨rfl, rfl, rfl⟩, rfl⟩
      | true => exact ⟨_, _, Or.inr ⟨rfl, rfl, rfl⟩, rfl⟩
    by_cases hw : q.width = 1
    · exact ⟨q, m, hr, q, m, hq, Or.inl ⟨hw, rfl, rfl⟩⟩
    · rw [← hwidth] at hr
      obtain ⟨slot, hslot⟩ : ∃ t, Scope.slot (.var m) q.width r = .ok t :=
        Scope.slot_ok_iff.mpr hr
      exact ⟨_, m + 1, hwidth ▸ hr, q, m, hq, Or.inr ⟨hw, slot, hslot, rfl, rfl⟩⟩

theorem acceptedIff_distinct {d : Distinct} (h : ∀ e, d ≠ .byExpr e) :
    (p.distinct d).AcceptedIff True := by
  intro n
  simp only [yields_distinct, iff_true]
  cases d with
  | byExpr e => exact absurd rfl (h e)
  | off => exact ⟨p, n, rfl, rfl⟩
  | flag on =>
      cases on with
      | false => exact ⟨p, n, rfl, rfl⟩
      | true => exact ⟨_, n, rfl, rfl⟩

theorem acceptedIff_select (projection : Expr) (preloads : List Nat) :
    (p.select s projection preloads).AcceptedIff
      (match shape? projection preloads with
        | none => ∀ r, projection = .entity r → r < p.width
        | some shape =>
          if p.groupKeys = [] ∧ shape.containsAggregate then
            shape.FitsGroup s.engine s.params [] p.width
          else shape.FitsElement s.engine s.params p.groupKeys p.width) := by
  rcases h : shape? projection preloads with _ | shape
  · obtain ⟨r, rfl, rfl⟩ := shape?_eq_none.mp h
    exact (acceptedIff_selectEntity r).congr (by simp)
  · rw [select_of_shape h]
    exact acceptedIff_selectShape shape

/-- Clause by clause: each is judged on the relations and keys that the clauses
before it leave. -/
theorem acceptedIff_ofQuery (q : Query) :
    (ofQuery s q).AcceptedIff (q.WellFormed s.catalog s.engine s.params) := by
  by_cases hd : ∃ e, q.distinct = .byExpr e
  · obtain ⟨e, hd⟩ := hd
    rw [ofQuery_byExpr hd]
    exact (acceptedIff_throw _).congr (iff_of_false id fun h => h.distinct e hd)
  have hdistinct : ∀ e, q.distinct ≠ .byExpr e := fun e h => hd ⟨e, h⟩
  rw [ofQuery_eq hdistinct]
  refine AcceptedIff.congr ?_ (Query.wellFormed_iff hdistinct).symm
  have hjoins := acceptedIff_joins (s := s) (p := ofSource s q.source) q.joins
  refine (hjoins.congr ?_).bind fun p₁ n₁ k₁ h₁ => ?_
  · simp only [ofSource, Query.relations, List.take_succ_cons, List.map_take,
      List.singleton_append]
  -- filters and keys see all the tables and no groups
  obtain ⟨hrel, hnone⟩ : p₁.relations = q.relations ∧ p₁.groupKeys = [] := relations_joins h₁
  have hw : p₁.width = q.width := by rw [width, hrel, q.length_relations]
  refine ((acceptedIff_filterAll hnone q.filters).congr (by rw [hw])).bind fun p₂ n₂ k₂ h₂ => ?_
  have e₂ := sameElements_filterAll h₂
  rw [← e₂.width_eq] at hw
  rw [← e₂.2] at hnone
  refine ((acceptedIff_groupBy hnone q.groupKeys).congr (by rw [hw])).bind fun p₃ n₃ k₃ h₃ => ?_
  -- from here on the elements are those that the keys make
  obtain ⟨hrel₃, hk⟩ := groupKeys_groupBy hnone h₃
  have hw₃ : p₃.width = q.width := by rw [width, hrel₃, ← width, hw]
  refine ((acceptedIff_having q.having).congr (by rw [hk, hw₃])).bind fun p₄ n₄ k₄ h₄ => ?_
  have e₄ := sameElements_having h₄
  refine ((acceptedIff_orderBy q.order).congr
    (by rw [e₄.width_eq, e₄.2, hk, hw₃])).bind fun p₅ n₅ k₅ h₅ => ?_
  have e₅ := e₄.trans (sameElements_orderBy h₅)
  refine (acceptedIff_counted _ _ q.offset).bind fun p₆ n₆ k₆ h₆ => ?_
  have e₆ := e₅.trans (sameElements_counted h₆)
  refine (acceptedIff_counted _ _ q.limit).bind fun p₇ n₇ k₇ h₇ => ?_
  have e₇ := e₆.trans (sameElements_counted h₇)
  -- the projection is the last clause that can fail
  have hselect := acceptedIff_select (s := s) (p := p₇) q.projection q.preloads
  rw [e₇.width_eq, e₇.2, hk, hw₃] at hselect
  refine (hselect.bind fun p₈ n₈ k₈ h₈ => ?_).congr (and_iff_left trivial)
  exact acceptedIff_distinct hdistinct

end Pipeline

/-- A query compiles exactly when it is well-formed, whatever the configuration. -/
theorem Compiler.compileQuery_ok_iff (c : Compiler) (q : Query) (params : Params) :
    (∃ t, c.compileQuery q params = .ok t) ↔ q.WellFormed c.catalog c.engine params := by
  have h : (c.query q params).AcceptedIff (q.WellFormed c.catalog c.engine params) :=
    (Pipeline.acceptedIff_ofQuery q).bind_pure
  rw [← h 1]
  simp only [compileQuery, Compile.outcome_eq_ok]

end DocQuery
