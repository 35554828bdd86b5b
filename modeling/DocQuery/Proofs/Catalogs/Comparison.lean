import DocQuery.Proofs.Acceptance.Query

/-!
# One query under two catalogs

Only joins look at the catalog: a join by association looks for the link that
backs it and for the primary key of the joined schema. So whatever is known of
the links that two catalogs give, and does not get lost by what comes after, is
known of the answers to a whole query.
-/

namespace DocQuery

/-- The rejection of an answer that is no value. -/
def rejection? {α : Type} : Except Rejection α → Option Rejection
  | .ok _ => none
  | .error r => some r

@[simp] theorem rejection?_eq_some {α : Type} {x : Except Rejection α} {r : Rejection} :
    rejection? x = some r ↔ x = .error r := by
  cases x <;> simp [rejection?]

/-- What two answers may be where they are not the same. A value may still come to
any end, so a rejection that is admitted beside a value is admitted beside all. -/
structure Comparison where
  Admits : Option Rejection → Option Rejection → Prop
  not_values : ¬ Admits none none
  left {r : Rejection} (x : Option Rejection) : Admits none (some r) → Admits x (some r)
  right {r : Rejection} (x : Option Rejection) : Admits (some r) none → Admits (some r) x

/-- One answer, or two that are admitted. -/
def Comparison.Holds {α : Type} (C : Comparison) (x y : Except Rejection α) : Prop :=
  x = y ∨ C.Admits (rejection? x) (rejection? y)

namespace Compile

variable {α β : Type} {C : Comparison}

/-- From every number the two runs are the same, or end as admitted. -/
def Compare (C : Comparison) (m m' : Compile α) : Prop :=
  ∀ n, m.runFrom n = m'.runFrom n ∨
    C.Admits (rejection? (m.runFrom n).1) (rejection? (m'.runFrom n).1)

theorem Compare.refl (m : Compile α) : Compare C m m := fun _ => Or.inl rfl

theorem compare_lift {x x' : Except Rejection α} (h : C.Holds x x') :
    Compare C (liftM x) (liftM x') := by
  intro n
  rw [runFrom_lift, runFrom_lift]
  rcases h with rfl | h
  · exact Or.inl rfl
  · exact Or.inr h

theorem Compare.bind {m m' : Compile α} {f f' : α → Compile β} (hm : Compare C m m')
    (hf : ∀ a n k, m.Yields n a k → Compare C (f a) (f' a)) :
    Compare C (m >>= f) (m' >>= f') := by
  intro n
  rw [runFrom_bind, runFrom_bind]
  rcases hm n with h | h
  · rw [← h]
    rcases hn : m.runFrom n with ⟨r | a, k⟩
    · exact Or.inl rfl
    · exact hf a n k hn k
  · right
    rcases hn : m.runFrom n with ⟨r | a, k⟩ <;> rcases hn' : m'.runFrom n with ⟨r' | a', k'⟩ <;>
      rw [hn, hn'] at h
    · exact h
    · exact C.right _ h
    · exact C.left _ h
    · exact absurd h C.not_values

theorem Compare.outcome {m m' : Compile α} (h : Compare C m m') :
    C.Holds m.outcome m'.outcome :=
  (h 1).imp_left (congrArg Prod.fst)

end Compile

/-- Joins of relations with these names resolve to the same link, or are rejected
as admitted, and the joined schemas have the same primary key. -/
structure Catalog.Compare (C : Comparison) (names : List (Option String)) (c c' : Catalog) :
    Prop where
  resolve {earlier : List (Option String)} {source : Source} (hearlier : earlier ⊆ names)
    (hs : source.schema ∈ names) : C.Holds (c.resolve earlier source) (c'.resolve earlier source)
  primaryKey {source : Source} (hs : source.schema ∈ names) :
    c.primaryKey source = c'.primaryKey source

/-- Primary keys are looked up in the schemas and nowhere else. -/
theorem Catalog.primaryKey_congr {c c' : Catalog} {source : Source}
    (h : (source.schema.bind c.find?).map Schema.primaryKey =
      (source.schema.bind c'.find?).map Schema.primaryKey) :
    c.primaryKey source = c'.primaryKey source := by
  rcases hc : source.schema.bind c.find? with _ | schema
  · rw [hc, Option.map_none, eq_comm, Option.map_eq_none_iff] at h
    rw [primaryKey_of_unregistered hc, primaryKey_of_unregistered h]
  · rw [hc, Option.map_some, eq_comm, Option.map_eq_some_iff] at h
    obtain ⟨schema', hc', hkey⟩ := h
    rw [primaryKey_of_registered hc, primaryKey_of_registered hc', hkey]

namespace Pipeline

open Compile

variable {C : Comparison} {config : Config} {engine : RegexEngine} {params : Params}
  {c c' : Catalog} {names : List (Option String)} {p : Pipeline}

theorem compare_pairByLink (h : c.Compare C names c') (hp : p.relations ⊆ names)
    {source : Source} (hs : source.schema ∈ names) :
    Compare C (p.pairByLink ⟨config, c, params, engine⟩ source)
      (p.pairByLink ⟨config, c', params, engine⟩ source) := by
  rw [pairByLink, pairByLink]
  refine (compare_lift (h.resolve hp hs)).bind fun b n k _ => ?_
  simp only [h.primaryKey hs]
  exact .refl _

theorem compare_join (h : c.Compare C names c') (hp : p.relations ⊆ names) {j : Join}
    (hj : j.source.schema ∈ names) :
    Compare C (p.join ⟨config, c, params, engine⟩ j) (p.join ⟨config, c', params, engine⟩ j) := by
  rw [join, join]
  split_ifs
  · exact (compare_pairByLink h hp hj).bind fun t n k _ => .refl _
  · exact .refl _

/-- A join sees the relations before it and the joined one, which are all among
the names. -/
theorem compare_joins (h : c.Compare C names c') (hp : p.relations ⊆ names) {js : List Join}
    (hjs : ∀ j ∈ js, j.source.schema ∈ names) :
    Compare C (p.joins ⟨config, c, params, engine⟩ js)
      (p.joins ⟨config, c', params, engine⟩ js) := by
  induction js generalizing p with
  | nil => exact .refl _
  | cons j js ih =>
      rw [List.forall_mem_cons] at hjs
      rw [joins, joins, List.foldlM_cons, List.foldlM_cons]
      refine (compare_join h hp hjs.1).bind fun q n k hq => ih ?_ hjs.2
      obtain ⟨t, m, -, -, rfl⟩ := yields_join.mp hq
      exact List.append_subset.mpr ⟨hp, List.cons_subset.mpr ⟨hjs.1, List.nil_subset _⟩⟩

/-- What follows the joins reads the parameters and no catalog. -/
theorem compare_ofQuery {q : Query} (h : c.Compare C q.relations c') :
    Compare C (ofQuery ⟨config, c, params, engine⟩ q) (ofQuery ⟨config, c', params, engine⟩ q) := by
  by_cases hd : ∃ e, q.distinct = .byExpr e
  · obtain ⟨e, hd⟩ := hd
    rw [ofQuery_byExpr hd, ofQuery_byExpr hd]
    exact .refl _
  · rw [ofQuery_eq fun e he => hd ⟨e, he⟩, ofQuery_eq fun e he => hd ⟨e, he⟩]
    have hsource : (ofSource ⟨config, c, params, engine⟩ q.source).relations ⊆ q.relations := by
      simp [ofSource, Query.relations]
    have hjoins : ∀ j ∈ q.joins, j.source.schema ∈ q.relations := fun j hj =>
      List.mem_cons_of_mem _ (List.mem_map_of_mem hj)
    exact (compare_joins h hsource hjoins).bind fun p n k _ => .refl _

end Pipeline

theorem Compiler.compare_compileQuery {C : Comparison} {config : Config} {engine : RegexEngine}
    {c c' : Catalog} {q : Query} {params : Params} (h : c.Compare C q.relations c') :
    C.Holds (Compiler.compileQuery ⟨config, c, engine⟩ q params)
      (Compiler.compileQuery ⟨config, c', engine⟩ q params) :=
  ((Pipeline.compare_ofQuery h).bind fun _ _ _ _ => .refl _).outcome

end DocQuery
