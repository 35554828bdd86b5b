import DocQuery.Proofs.Groups.Selection

/-!
# Preloaded relations

A list, a tuple and a whole entity take the preloaded relations in behind their
entities. Any other projection leaves them out without looking at them, so that it
compiles to the same term, or to the same rejection, whatever is preloaded.
-/

namespace DocQuery

open Compile

/-- The items of a projection that takes preloaded relations in. -/
def Expr.items? : Expr → Option (List Expr)
  | .entity r => some [.entity r]
  | .list items | .tuple items => some items
  | _ => none

namespace Query

/-- The term is the row of a relation, read from an element that the projection
sees: from its slot in a record, or in a group from a key that is this relation. -/
inductive RowOf (q : Query) (element : Term) (relation : Nat) : Term → Prop
  | slot (ungrouped : q.groupKeys = []) (bound : relation < q.width) :
      RowOf q element relation (if q.width = 1 then element else element.nth relation)
  | key {j : Nat} (isKey : q.groupKeys[j]? = some (.entity relation)) :
      RowOf q element relation ((element.bracket "group").nth j)

/-- What the projection makes of an element holds the rows of the preloaded
relations, in order and right behind the entities among the items. It is an array
or, in a group, a key that is a list. -/
inductive PlacesPreloads (q : Query) (items : List Expr) (element : Term) : Term → Prop
  | array {ts : List Term}
      (rows : ∀ i r, q.preloads[i]? = some r →
        ∃ row, ts[items.countP Expr.isEntity + i]? = some row ∧ q.RowOf element r row) :
      PlacesPreloads q items element (.makeArray ts)
  | key {j : Nat} {es : List Expr} (isKey : q.groupKeys[j]? = some (.list es))
      (rows : ∀ i r, q.preloads[i]? = some r →
        es[items.countP Expr.isEntity + i]? = some (.entity r)) :
      PlacesPreloads q items element ((element.bracket "group").nth j)

variable {q : Query} {engine : RegexEngine} {params : Params} {items : List Expr}
  {element t : Term} {e : Expr}
  {preloads : List Nat} {n k r i : Nat}

/-! ## Slots -/

theorem getElem?_slots (h : preloads[i]? = some r) :
    (Pipeline.slots items preloads)[items.countP Expr.isEntity + i]? = some (.entity r) := by
  have hi : i < (preloads.map Expr.entity).length := by
    rw [List.length_map]
    exact (List.getElem?_eq_some_iff.mp h).1
  rw [Pipeline.slots, List.countP_eq_length_filter, List.append_assoc,
    List.getElem?_append_right (Nat.le_add_right _ _), Nat.add_sub_cancel_left,
    List.getElem?_append_left hi, List.getElem?_map, h, Option.map_some]

theorem shape?_of_items? (h : e.items? = some items) (hne : e.isEntity → preloads ≠ []) :
    Pipeline.shape? e preloads = some (.list (Pipeline.slots items preloads)) := by
  cases e with
  | entity r =>
      cases h
      simp [Pipeline.shape?, hne rfl]
  | list | tuple =>
      cases h
      rfl
  | _ => cases h

theorem select_of_items?_eq_none {s : Setting} {p : Pipeline} (h : e.items? = none)
    (preloads : List Nat) : p.select s e preloads = p.selectShape s e := by
  cases e with
  | entity | list | tuple => cases h
  | _ => rfl

/-! ## Rows of relations -/

theorem key_of_keySlot?
    (h : (Operation.elementScope q.groupKeys q.width element).keySlot? e = some t) :
    ∃ j key, q.groupKeys[j]? = some key ∧ key.sameAs e = true ∧
      t = (element.bracket "group").nth j := by
  rw [Operation.elementScope] at h
  split_ifs at h
  · cases h
  · obtain ⟨j, hj, rfl⟩ := Option.map_eq_some_iff.mp h
    obtain ⟨key, hkey, hsame⟩ := sameAs_of_keyPlace? hj
    exact ⟨j, key, hkey, hsame, rfl⟩

theorem rowOf_of_yields
    (h : ((Expr.entity r).compile engine params
      (Operation.elementScope q.groupKeys q.width element)).Yields n t k) :
    q.RowOf element r t := by
  cases Expr.yields_compile_iff.mp h with
  | key slot =>
      obtain ⟨j, key, hkey, hsame, rfl⟩ := key_of_keySlot? slot
      rw [Expr.sameAs_entity_iff.mp hsame] at hkey
      exact .key hkey
  | entity _ read =>
      rw [Operation.elementScope] at read
      split_ifs at read with hkeys
      · obtain ⟨hr, rfl⟩ := Scope.slot_eq_ok_iff.mp read
        exact .slot hkeys hr
      · cases read
  | plain _ isPlain => cases isPlain

/-- No row can be read where a whole sequence is folded. -/
theorem not_yields_total {rows : Term} (hr : r ∈ preloads) :
    ¬ ((Expr.list (Pipeline.slots items preloads)).compile engine params
      (.total rows q.width)).Yields n t k := by
  intro h
  obtain ⟨i, hi⟩ := List.getElem?_of_mem hr
  cases Expr.yields_compile_iff.mp h with
  | key slot => cases slot
  | plain _ _ _ operands_eq =>
      obtain ⟨row, m, j, -, hrow⟩ := operands_eq.exists_of_getElem? (getElem?_slots hi)
      cases Expr.yields_compile_iff.mp hrow with
      | key slot => cases slot
      | entity _ read => cases read
      | plain _ isPlain => cases isPlain

theorem placesPreloads_of_yields
    (h : ((Expr.list (Pipeline.slots items q.preloads)).compile engine params
      (Operation.elementScope q.groupKeys q.width element)).Yields n t k) :
    q.PlacesPreloads items element t := by
  cases Expr.yields_compile_iff.mp h with
  | key slot =>
      obtain ⟨j, key, hkey, hsame, rfl⟩ := key_of_keySlot? slot
      cases key with
      | list es =>
          rw [Expr.sameAs] at hsame
          exact .key hkey fun i r hr => Expr.getElem?_of_allSame hsame (getElem?_slots hr)
      | _ => simp [Expr.sameAs] at hsame
  | plain _ _ _ operands_eq =>
      refine .array fun i r hr => ?_
      obtain ⟨row, m, j, hrow, hyields⟩ := operands_eq.exists_of_getElem? (getElem?_slots hr)
      exact ⟨row, hrow, rowOf_of_yields hyields⟩

/-! ## Bounds -/

/-- Keys are read from records, so that they name relations of the record. -/
theorem RowOf.lt (h : q.RowOf element r t)
    (hkeys : ∀ key ∈ q.groupKeys, key.FitsRow engine params q.width) : r < q.width := by
  cases h with
  | slot _ bound => exact bound
  | key isKey => exact (Expr.fitsRow_iff.mp (hkeys _ (List.mem_of_getElem? isKey))).1

theorem PlacesPreloads.lt (h : q.PlacesPreloads items element t)
    (hkeys : ∀ key ∈ q.groupKeys, key.FitsRow engine params q.width) :
    ∀ r ∈ q.preloads, r < q.width := by
  intro r hr
  obtain ⟨i, hi⟩ := List.getElem?_of_mem hr
  cases h with
  | array rows =>
      obtain ⟨row, -, hrow⟩ := rows i r hi
      exact hrow.lt hkeys
  | key isKey rows =>
      have hlist := Expr.fitsRow_iff.mp (hkeys _ (List.mem_of_getElem? isKey))
      have hentity := hlist.2 (.entity r) (List.mem_of_getElem? (rows i r hi))
      exact (Expr.fitsRow_iff.mp hentity).1

end Query

/-! ## Compiled queries -/

namespace Pipeline

/-- Preloaded relations make the projection a function of one element. -/
theorem Built.select_preloads {s : Setting} {q : Query} {ops : List Operation}
    {p p' : Pipeline} {items : List Expr} {n k : Nat}
    (h : p.Built s q.relations q.groupKeys ops) (hitems : q.projection.items? = some items)
    (hne : q.preloads ≠ []) (hselect : (p.select s q.projection q.preloads).Yields n p' k) :
    ∃ body, p' = p.mapTerm (·.map (.func [n] body)) ∧ q.PlacesPreloads items (.var n) body := by
  have hwidth : p.width = q.width := h.width_eq.trans q.length_relations
  rw [select_of_shape (Query.shape?_of_items? hitems fun _ => hne)] at hselect
  rcases yields_selectShape.mp hselect with ⟨-, htotal⟩ | ⟨-, f, hf, rfl⟩
  · obtain ⟨value, hvalue, -⟩ := yields_selectTotal.mp htotal
    rw [hwidth] at hvalue
    obtain ⟨r, hr⟩ := List.exists_mem_of_ne_nil _ hne
    exact absurd hvalue (Query.not_yields_total hr)
  · obtain ⟨body, hbody, rfl⟩ := yields_lambda.mp hf
    rw [h.elementScope_eq, q.length_relations] at hbody
    exact ⟨body, rfl, Query.placesPreloads_of_yields hbody⟩

end Pipeline

namespace Compiler

theorem compileQuery_of_preloads {c : Compiler} {q : Query} {params : Params}
    {items : List Expr} {t : Term} (hitems : q.projection.items? = some items)
    (hne : q.preloads ≠ []) (h : c.compileQuery q params = .ok t) :
    q.WellFormed c.catalog c.engine params ∧
      ∃ (rows : Term) (v : Nat) (body : Term), rows.Follows (c.setting params) q.rowOperations ∧
        t = q.distinct.around (rows.map (.func [v] body)) ∧
          q.PlacesPreloads items (.var v) body := by
  obtain ⟨p, k, hp, rfl⟩ := compileQuery_eq_ok_iff.mp h
  refine ⟨(Pipeline.acceptedIff_ofQuery q 1).mp ⟨p, k, hp⟩, ?_⟩
  obtain ⟨before, after, m, i, hbefore, hselect, hdistinct⟩ := Pipeline.built_ofQuery hp
  obtain ⟨body, rfl, hbody⟩ := hbefore.select_preloads hitems hne hselect
  refine ⟨before.term, m, body, hbefore.follows, ?_, hbody⟩
  rw [Pipeline.term_distinct hdistinct]
  exact if_neg (by simp [Pipeline.mapTerm, hbefore.scalar_eq])

/-- Preloads do not even decide which rejection is met. -/
theorem compileQuery_of_items?_eq_none {q : Query} (h : q.projection.items? = none) (c : Compiler)
    (params : Params) (preloads : List Nat) :
    c.compileQuery { q with preloads } params = c.compileQuery q params := by
  simp only [compileQuery, query, Pipeline.ofQuery, Query.select_of_items?_eq_none h]

end Compiler

/-- In the output of a list, a tuple or a whole entity stand the rows of all
preloaded relations, right behind its entities, and a query with any other relation
is rejected. Any other projection compiles as if nothing were preloaded. -/
theorem preloads_placed_or_unseen (c : Compiler) (q : Query) (params : Params) :
    (∀ items t, q.projection.items? = some items → c.compileQuery q params = .ok t →
      (∀ r ∈ q.preloads, r < q.width) ∧
        (q.preloads ≠ [] → ∃ (rows : Term) (v : Nat) (body : Term),
          rows.Follows (c.setting params) q.rowOperations ∧
            t = q.distinct.around (rows.map (.func [v] body)) ∧
              q.PlacesPreloads items (.var v) body)) ∧
    (q.projection.items? = none → ∀ preloads,
      c.compileQuery { q with preloads } params = c.compileQuery q params) := by
  constructor
  · intro items t hitems ht
    by_cases hne : q.preloads = []
    · rw [hne]
      exact ⟨nofun, fun h => absurd rfl h⟩
    · obtain ⟨hfits, rows, v, body, hrows, hterm, hbody⟩ :=
        Compiler.compileQuery_of_preloads hitems hne ht
      exact ⟨hbody.lt hfits.groupKeys, fun _ => ⟨rows, v, body, hrows, hterm, hbody⟩⟩
  · intro hitems preloads
    exact Compiler.compileQuery_of_items?_eq_none hitems c params preloads

/-- Titles and posts with their authors, and the same titles as a map. -/
theorem preloads_placed_or_unseen_of_posts :
    let author : Join := ⟨⟨"users", none⟩, .compare .eq (.field 1 "id") (.field 0 "author_id")⟩
    let title : Expr := .field 0 "title"
    let q : Query := {
      source := ⟨"posts", none⟩, joins := [author], projection := .list [title, .entity 0]
      distinct := .flag true, preloads := [1] }
    let titles : Query := { q with projection := .map [("title", title)] }
    let c : Compiler := {}
    (∃ (rows : Term) (v : Nat) (body : Term),
      c.compileQuery q [] = .ok (rows.map (.func [v] body)).distinct ∧
        rows.chain.map (·.1) = [.map, .innerJoin, .table] ∧
          q.PlacesPreloads [title, .entity 0] (.var v) body) ∧
      (∃ t, c.compileQuery titles [] = .ok t) ∧
        ∀ preloads, c.compileQuery { titles with preloads } [] = c.compileQuery titles [] := by
  intro author title q titles c
  obtain ⟨-, hplaces⟩ := (preloads_placed_or_unseen c q []).1 _ _ rfl rfl
  obtain ⟨rows, v, body, hrows, hterm, hbody⟩ := hplaces (List.cons_ne_nil _ _)
  have hunseen := (preloads_placed_or_unseen c titles []).2 rfl
  exact ⟨⟨rows, v, body, congrArg Except.ok hterm, hrows.kinds_eq, hbody⟩, ⟨_, rfl⟩, hunseen⟩

/-- A map compiles with a relation that no table is bound to. -/
theorem map_compiles_with_unbound_preload :
    let q : Query := {
      source := ⟨"posts", none⟩, projection := .map [("id", .field 0 "id")], preloads := [7] }
    let c : Compiler := {}
    7 ∈ q.preloads ∧ ¬ 7 < q.width ∧ c.compileQuery q [] = .ok ((Term.table none "posts").map
      (.func [1] (.makeObject [("id", (Term.var 1).bracket "id")]))) :=
  ⟨List.mem_singleton_self 7, by decide, rfl⟩

end DocQuery
