import DocQuery.Proofs.Clauses.Order

/-!
# Selecting a group key

Past grouping, what equals a group key is read from the key. A projection is taken
apart before that: a tuple is computed as a list, and a list with its entities
first. The main result is that a selected key is read from its place in the group
exactly if it is written as it is computed.
-/

namespace DocQuery

open Compile

/-- The query with this projection and nothing else asked of the output. -/
def Query.selecting (q : Query) (e : Expr) : Query :=
  { q with projection := e, distinct := .off, preloads := [] }

namespace Expr

/-- No entity stands behind an item that is none. -/
def EntitiesFirst (items : List Expr) : Prop := items.Pairwise fun a b => b.isEntity → a.isEntity

/-- A projection that is written as it is computed. -/
def IsWrittenAsComputed : Expr → Prop
  | .entity _ | .tuple _ => False
  | .list items => EntitiesFirst items
  | _ => True

/-- Only the places of the entities count. -/
theorem EntitiesFirst.of_map_eq {as bs : List Expr} (h : EntitiesFirst as)
    (heq : as.map isEntity = bs.map isEntity) : EntitiesFirst bs := by
  have hmap {es : List Expr} : EntitiesFirst es ↔
      (es.map isEntity).Pairwise fun a b => b = true → a = true := by
    rw [List.pairwise_map]
    rfl
  rw [hmap, ← heq, ← hmap]
  exact h

end Expr

namespace Pipeline

open DocQuery.Expr

variable {items : List Expr} {s : Setting} {p p' : Pipeline} {e shape : Expr} {n k : Nat}

theorem entitiesFirst_slots (items : List Expr) : EntitiesFirst (slots items []) := by
  rw [slots, List.map_nil, List.append_nil, EntitiesFirst, List.pairwise_append]
  refine ⟨?_, ?_, fun a ha _ _ _ => (List.mem_filter.mp ha).2⟩
  · exact List.pairwise_of_forall_mem_list fun a ha _ _ _ => (List.mem_filter.mp ha).2
  · refine List.pairwise_of_forall_mem_list fun _ _ b hb hentity => ?_
    have hnot := (List.mem_filter.mp hb).2
    rw [hentity] at hnot
    cases hnot

theorem slots_eq_self (h : EntitiesFirst items) : slots items [] = items := by
  rw [slots, List.map_nil, List.append_nil]
  induction items with
  | nil => rfl
  | cons a items ih =>
      obtain ⟨ha, hrest⟩ := List.pairwise_cons.mp h
      cases hentity : a.isEntity with
      | true => simpa [hentity] using ih hrest
      | false =>
          -- behind an item that is no entity there are no entities
          have hnone (b : Expr) (hb : b ∈ items) : b.isEntity = false := by
            cases hb' : b.isEntity with
            | false => rfl
            | true => rw [ha b hb hb'] at hentity; cases hentity
          have hfirst : items.filter isEntity = [] :=
            List.filter_eq_nil_iff.mpr fun b hb => by simp [hnone b hb]
          have hothers : items.filter (!·.isEntity) = items :=
            List.filter_eq_self.mpr fun b hb => by simp [hnone b hb]
          simp [hentity, hfirst, hothers]

theorem shape?_of_isWrittenAsComputed (h : e.IsWrittenAsComputed) : shape? e [] = some e := by
  cases e with
  | entity | tuple => exact h.elim
  | list items => exact congrArg (fun es => some (Expr.list es)) (slots_eq_self h)
  | _ => rfl

/-- Another list is computed for all projections but these and whole entities. -/
theorem shape?_of_not_isWrittenAsComputed (hentity : e.isEntity = false)
    (h : ¬ e.IsWrittenAsComputed) :
    ∃ items, shape? e [] = some (.list (slots items [])) ∧ (e = .tuple items ∨ e = .list items) := by
  cases e with
  | entity => cases hentity
  | tuple items => exact ⟨items, rfl, Or.inl rfl⟩
  | list items => exact ⟨items, rfl, Or.inr rfl⟩
  | _ => exact absurd trivial h

/-- No key equals both such a projection and the list that is computed for it. -/
theorem isWrittenAsComputed_of_sameAs {key : Expr} (he : e = .tuple items ∨ e = .list items)
    (hsame : key.sameAs e = true) (hslots : key.sameAs (.list (slots items [])) = true) :
    e.IsWrittenAsComputed := by
  cases key with
  | list es =>
      rcases he with rfl | rfl
      · simp [sameAs] at hsame
      · rw [sameAs] at hsame hslots
        have hplaces := (map_isEntity_eq_of_allSame hslots).symm.trans
          (map_isEntity_eq_of_allSame hsame)
        exact (entitiesFirst_slots items).of_map_eq hplaces
  | _ => simp [sameAs] at hslots

/-- What is selected over groups is computed once for each of them. -/
theorem yields_select_of_groups (hgrouped : p.isGrouped) (hshape : shape? e [] = some shape) :
    (p.select s e []).Yields n p' k ↔
      ∃ body, (shape.compile s.engine s.params (.bucket (.var n) p.groupKeys p.width)).Yields
          (n + 1) body k ∧ p' = p.mapTerm (·.map (.func [n] body)) := by
  rw [select_of_shape hshape, yields_selectShape]
  simp only [hgrouped, Bool.not_true, Bool.false_and, Bool.false_eq_true, false_and, false_or,
    true_and, elementFunc, yields_lambda, elementScope, if_true]
  constructor
  · rintro ⟨_, ⟨body, hbody, rfl⟩, rfl⟩
    exact ⟨body, hbody, rfl⟩
  · rintro ⟨body, hbody, rfl⟩
    exact ⟨_, ⟨body, hbody, rfl⟩, rfl⟩

end Pipeline

/-- The place of the first key that equals the expression. -/
def Query.keyPlace? (q : Query) (e : Expr) : Option Nat := q.groupKeys.findIdx? (·.sameAs e)

namespace Query

variable {q : Query} {engine : RegexEngine} {params : Params} {e k : Expr} {es : List Expr}
  {n m i j width : Nat}

theorem keyPlace?_isSome (h : k ∈ q.groupKeys) : ∃ j, q.keyPlace? k = some j := by
  rw [← Option.isSome_iff_exists, keyPlace?, List.findIdx?_isSome, List.any_eq_true]
  exact ⟨k, h, k.sameAs_refl⟩

theorem sameAs_of_keyPlace? (h : q.keyPlace? e = some j) :
    ∃ key, q.groupKeys[j]? = some key ∧ key.sameAs e = true := by
  obtain ⟨hlt, hsame, -⟩ := List.findIdx?_eq_some_iff_getElem.mp h
  exact ⟨_, List.getElem?_eq_getElem hlt, hsame⟩

/-- The place of a key in a group. -/
theorem yields_of_keyPlace? (h : q.keyPlace? e = some j) :
    (e.compile engine params (.bucket (.var n) q.groupKeys width)).Yields m
      (((Term.var n).bracket "group").nth j) m := by
  have hslot : (Scope.bucket (.var n) q.groupKeys width).keySlot? e =
      some (((Term.var n).bracket "group").nth j) := congrArg (Option.map _) h
  rw [Expr.compile_of_keySlot hslot]
  exact yields_pure.mpr ⟨rfl, rfl⟩

/-- A list is read from a place only if it equals a key. -/
theorem keyPlace?_of_yields
    (h : ((Expr.list es).compile engine params (.bucket (.var n) q.groupKeys width)).Yields m
      (((Term.var n).bracket "group").nth j) i) : q.keyPlace? (.list es) = some j := by
  generalize ht : ((Term.var n).bracket "group").nth j = t at h
  cases Expr.yields_compile_iff.mp h with
  | key slot =>
      obtain ⟨place, hplace, rfl⟩ := Option.map_eq_some_iff.mp slot
      have hcast : (j : Int) = place := by
        simpa [Term.nth, Term.nat, Term.call, Json.int] using ht
      rw [Int.ofNat_inj.mp hcast]
      exact hplace
  | plain => cases ht

end Query

namespace Compiler

variable {c : Compiler} {q : Query} {params : Params} {e shape : Expr} {t : Term}

theorem compileQuery_selecting_ok_iff (hkeys : q.groupKeys ≠ [])
    (hshape : Pipeline.shape? e [] = some shape) :
    c.compileQuery (q.selecting e) params = .ok t ↔
      ∃ p n body k, (Pipeline.beforeSelect (c.setting params) q).Yields 1 p n ∧
        (shape.compile c.engine params (.bucket (.var n) q.groupKeys q.width)).Yields
          (n + 1) body k ∧ t = p.term.map (.func [n] body) := by
  have hbuilt {p : Pipeline} {n : Nat}
      (h : (Pipeline.beforeSelect (c.setting params) q).Yields 1 p n) :
      p.isGrouped ∧ p.groupKeys = q.groupKeys ∧ p.width = q.width := by
    have hp := Pipeline.built_beforeSelect h
    have hw := hp.width_eq
    rw [q.length_relations] at hw
    refine ⟨?_, hp.groupKeys_eq, hw⟩
    simp [Pipeline.isGrouped, hp.groupKeys_eq, hkeys]
  simp only [compileQuery_eq_ok_iff, Pipeline.yields_ofQuery_iff]
  constructor
  · rintro ⟨p', k, ⟨-, p, after, n, m, hp, hselect, hdistinct⟩, rfl⟩
    obtain ⟨hgrouped, hkeys', hwidth⟩ := hbuilt hp
    obtain ⟨body, hbody, rfl⟩ := (Pipeline.yields_select_of_groups hgrouped hshape).mp hselect
    obtain ⟨-, rfl⟩ := Pipeline.yields_distinct.mp hdistinct
    rw [hkeys', hwidth] at hbody
    exact ⟨p, n, body, m, hp, hbody, rfl⟩
  · rintro ⟨p, n, body, k, hp, hbody, rfl⟩
    obtain ⟨hgrouped, hkeys', hwidth⟩ := hbuilt hp
    rw [← hkeys', ← hwidth] at hbody
    have hselect := (Pipeline.yields_select_of_groups (s := c.setting params) hgrouped hshape).mpr
      ⟨body, hbody, rfl⟩
    have hoff (e' : Expr) : Distinct.off ≠ .byExpr e' := Distinct.noConfusion
    exact ⟨_, k, ⟨hoff, p, _, n, k, hp, hselect, Pipeline.yields_distinct.mpr ⟨rfl, rfl⟩⟩, rfl⟩

end Compiler

/-- A group key that is selected is read from its place in the group if it is
written as it is computed, and not otherwise, in every query that compiles when a
constant is selected. -/
theorem selected_key_read_iff (c : Compiler) (q : Query) (params : Params) (k : Expr)
    (hk : k ∈ q.groupKeys) (hentity : k.isEntity = false)
    (hq : ∃ t, c.compileQuery (q.selecting (.literal (.int 0))) params = .ok t) :
    ∃ j, q.keyPlace? k = some j ∧
      (k.IsWrittenAsComputed ↔
        ∃ (rows : Term) (v : Nat), rows.Follows (c.setting params) q.rowOperations ∧
          c.compileQuery (q.selecting k) params =
            .ok (rows.map (.func [v] (((Term.var v).bracket "group").nth j)))) := by
  have hkeys : q.groupKeys ≠ [] := List.ne_nil_of_mem hk
  obtain ⟨j, hj⟩ := Query.keyPlace?_isSome hk
  refine ⟨j, hj, ?_, ?_⟩
  · intro hwritten
    obtain ⟨t, ht⟩ := hq
    obtain ⟨p, n, _, _, hp, -, -⟩ := (Compiler.compileQuery_selecting_ok_iff hkeys rfl).mp ht
    refine ⟨p.term, n, (Pipeline.built_beforeSelect hp).follows, ?_⟩
    have hshape := Pipeline.shape?_of_isWrittenAsComputed hwritten
    rw [Compiler.compileQuery_selecting_ok_iff hkeys hshape]
    exact ⟨p, n, _, n + 1, hp, Query.yields_of_keyPlace? hj, rfl⟩
  · rintro ⟨rows, v, -, ht⟩
    by_contra hwritten
    obtain ⟨items, hshape, hitems⟩ :=
      Pipeline.shape?_of_not_isWrittenAsComputed hentity hwritten
    obtain ⟨p, n, body, _, -, hbody, heq⟩ :=
      (Compiler.compileQuery_selecting_ok_iff hkeys hshape).mp ht
    obtain ⟨-, rfl, rfl⟩ : rows = p.term ∧ v = n ∧ _ = body := by
      simpa [Term.map, Term.call] using heq
    -- the list that is computed has the place of the key, so that the key is a list like it
    obtain ⟨key, hkey, hsame⟩ := Query.sameAs_of_keyPlace? hj
    obtain ⟨key', hkey', hslots⟩ := Query.sameAs_of_keyPlace? (Query.keyPlace?_of_yields hbody)
    obtain rfl : key = key' := Option.some.inj (hkey.symm.trans hkey')
    exact hwritten (Pipeline.isWrittenAsComputed_of_sameAs hitems hsame hslots)

/-- The second key of three is the first one that equals the selected one. -/
theorem selected_key_read_iff_of_years :
    let year : Expr := .map [("year", .field 0 "year")]
    let q : Query := {
      source := ⟨"posts", none⟩, groupKeys := [.field 0 "author", year, year]
      order := [⟨.descending, .aggregate .count (.entity 0) false⟩] }
    let c : Compiler := {}
    year ∈ q.groupKeys ∧ (∃ t, c.compileQuery (q.selecting (.literal (.int 0))) [] = .ok t) ∧
      ∃ (rows : Term) (v : Nat), rows.chain.map (·.1) = [.orderBy, .ungroup, .group, .table] ∧
        c.compileQuery (q.selecting year) [] =
          .ok (rows.map (.func [v] (((Term.var v).bracket "group").nth 1))) := by
  intro year q c
  have hk : year ∈ q.groupKeys := List.mem_cons_of_mem _ List.mem_cons_self
  obtain ⟨j, hj, hread⟩ := selected_key_read_iff c q [] year hk rfl ⟨_, rfl⟩
  obtain rfl : 1 = j := Option.some.inj hj
  obtain ⟨rows, v, hrows, ht⟩ := hread.mp trivial
  exact ⟨hk, ⟨_, rfl⟩, rows, v, hrows.kinds_eq, ht⟩

/-- A tuple is a key, and the list that is computed in its place is none. -/
theorem selected_tuple_not_read :
    let author : Expr := .tuple [.field 0 "author"]
    let q : Query := { source := ⟨"posts", none⟩, groupKeys := [author] }
    let c : Compiler := {}
    (∃ t, c.compileQuery (q.selecting (.literal (.int 0))) [] = .ok t) ∧
      author ∈ q.groupKeys ∧ author.isEntity = false ∧
        c.compileQuery (q.selecting author) [] = .error (.ungroupedField 0 "author") :=
  ⟨⟨_, rfl⟩, List.mem_singleton_self _, rfl, rfl⟩

end DocQuery
