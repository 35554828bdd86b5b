import DocQuery.Proofs.Hygiene.Stages
import DocQuery.Proofs.Projections.Preloads

/-!
# Rows of slots

A list, a tuple, and a whole entity with preloaded relations give rows that are
read by position: the entities among the items, then the preloaded relations, then
the other items. Everything is computed in one scope and in the order of the
slots, so what remains of the order of the items is the order of the entities and
that of the others.
-/

namespace DocQuery

open Compile

/-- The projection gives rows of slots, made of these items and of the preloaded
relations. A whole entity does so only if there are some. -/
structure Expr.IsPositional (items : List Expr) (preloads : List Nat) (e : Expr) : Prop where
  items_eq : e.items? = some items
  preloaded : e.isEntity → preloads ≠ []

namespace Pipeline

/-- The slots of a row, computed in one scope from the number `n` on: one part
after the other, and each part in its own order. -/
inductive YieldsSlots (engine : RegexEngine) (params : Params) (scope : Scope) (items : List Expr)
    (preloads : List Nat) (n : Nat) : List Term → Nat → Prop
  | inOrder {entities preloaded others : List Term} {m j k : Nat}
      (entities_eq : YieldsEach (Expr.compile engine params scope)
        (items.filter Expr.isEntity) n entities m)
      (preloaded_eq : YieldsEach (Expr.compile engine params scope)
        (preloads.map Expr.entity) m preloaded j)
      (others_eq : YieldsEach (Expr.compile engine params scope)
        (items.filter (!·.isEntity)) j others k) :
      YieldsSlots engine params scope items preloads n (entities ++ preloaded ++ others) k

/-- What the pipeline becomes when its elements are turned into the row: the row,
the pipeline and the next free number. -/
inductive OutputsRow (s : Setting) (p : Pipeline) (items : List Expr) (preloads : List Nat)
    (n : Nat) : List Term → Pipeline → Nat → Prop
  | perRecord {row : List Term} {k : Nat} (ungrouped : p.groupKeys = [])
      (flat : items.any Expr.containsAggregate = false)
      (slots_eq : YieldsSlots s.engine s.params (.row (.var n) p.width) items preloads
        (n + 1) row k) :
      OutputsRow s p items preloads n row (p.mapTerm (·.map (.func [n] (.makeArray row)))) k
  | perGroup {row : List Term} {k : Nat} (grouped : p.groupKeys ≠ [])
      (slots_eq : YieldsSlots s.engine s.params (.bucket (.var n) p.groupKeys p.width) items
        preloads (n + 1) row k) :
      OutputsRow s p items preloads n row (p.mapTerm (·.map (.func [n] (.makeArray row)))) k
  /-- Where ungrouped items aggregate, the whole sequence gives one row. -/
  | once {row : List Term} {k : Nat} (ungrouped : p.groupKeys = [])
      (folds : items.any Expr.containsAggregate = true)
      (slots_eq : YieldsSlots s.engine s.params (.total p.term p.width) items preloads n row k) :
      OutputsRow s p items preloads n row { p with term := .makeArray [.makeArray row] } k

variable {s : Setting} {p p' : Pipeline} {engine : RegexEngine} {params : Params} {scope : Scope}
  {items : List Expr}
  {preloads : List Nat} {row : List Term} {t : Term} {n k : Nat}

/-! ## The slots -/

theorem yieldsSlots_iff :
    YieldsSlots engine params scope items preloads n row k ↔
      YieldsEach (Expr.compile engine params scope) (slots items preloads) n row k := by
  simp only [slots, yieldsEach_append]
  constructor
  · rintro ⟨hentities, hpreloaded, hothers⟩
    exact ⟨_, _, _, ⟨_, _, _, hentities, hpreloaded, rfl⟩, hothers, rfl⟩
  · rintro ⟨_, _, _, ⟨_, _, _, hentities, hpreloaded, rfl⟩, hothers, rfl⟩
    exact .inOrder hentities hpreloaded hothers

theorem YieldsSlots.length_eq (h : YieldsSlots engine params scope items preloads n row k) :
    row.length = items.length + preloads.length := by
  rw [(yieldsSlots_iff.mp h).length_eq, (slots_perm items preloads).length_eq, List.length_append,
    List.length_map]

theorem OutputsRow.length_eq (h : p.OutputsRow s items preloads n row p' k) :
    row.length = items.length + preloads.length := by
  cases h with
  | perRecord _ _ slots_eq | perGroup _ slots_eq | once _ _ slots_eq => exact slots_eq.length_eq

/-- The list of all slots is computed slot by slot unless it is a key itself. -/
theorem yields_list_slots (hk : scope.keySlot? (.list (slots items preloads)) = none) :
    ((Expr.list (slots items preloads)).compile engine params scope).Yields n t k ↔
      ∃ row, YieldsSlots engine params scope items preloads n row k ∧ t = .makeArray row := by
  rw [Expr.yields_compile_of_isPlain rfl hk]
  constructor
  · rintro ⟨v, row, -, hrow, rfl⟩
    exact ⟨row, yieldsSlots_iff.mpr hrow, rfl⟩
  · rintro ⟨row, hrow, rfl⟩
    exact ⟨.null, row, rfl, yieldsSlots_iff.mp hrow, rfl⟩

/-! ## Where they are computed -/

theorem containsAggregate_list_slots (items : List Expr) (preloads : List Nat) :
    (Expr.list (slots items preloads)).containsAggregate = items.any Expr.containsAggregate := by
  rw [Expr.containsAggregate, Expr.anyAggregate_eq, containsAggregate_slots]

theorem yields_elementFunc_slots
    (hk : (p.elementScope (.var n)).keySlot? (.list (slots items preloads)) = none) :
    (∃ f, (p.elementFunc s (.list (slots items preloads))).Yields n f k ∧
        p' = p.mapTerm (·.map f)) ↔
      ∃ row, YieldsSlots s.engine s.params (p.elementScope (.var n)) items preloads (n + 1) row k ∧
        p' = p.mapTerm (·.map (.func [n] (.makeArray row))) := by
  simp only [elementFunc, yields_lambda, yields_list_slots hk]
  constructor
  · rintro ⟨f, ⟨t, ⟨row, hrow, rfl⟩, rfl⟩, rfl⟩
    exact ⟨row, hrow, rfl⟩
  · rintro ⟨row, hrow, rfl⟩
    exact ⟨_, ⟨_, ⟨row, hrow, rfl⟩, rfl⟩, rfl⟩

theorem yields_selectTotal_slots :
    (p.selectTotal s (.list (slots items preloads))).Yields n p' k ↔
      ∃ row, YieldsSlots s.engine s.params (.total p.term p.width) items preloads n row k ∧
        p' = { p with term := .makeArray [.makeArray row] } := by
  have hk : (Scope.total p.term p.width).keySlot? (.list (slots items preloads)) = none := rfl
  simp only [yields_selectTotal, yields_list_slots hk, isRowShape, if_true]
  constructor
  · rintro ⟨t, ⟨row, hrow, rfl⟩, rfl⟩
    exact ⟨row, hrow, rfl⟩
  · rintro ⟨row, hrow, rfl⟩
    exact ⟨_, ⟨row, hrow, rfl⟩, rfl⟩

theorem yields_selectShape_of_ungrouped (hg : p.groupKeys = []) :
    (p.selectShape s (.list (slots items preloads))).Yields n p' k ↔
      ∃ row, p.OutputsRow s items preloads n row p' k := by
  have hungrouped : p.isGrouped = false := isGrouped_eq_false.mpr hg
  have hscope : p.elementScope (.var n) = .row (.var n) p.width := by
    rw [elementScope, hungrouped]
    rfl
  rw [yields_selectShape, containsAggregate_list_slots, yields_selectTotal_slots,
    yields_elementFunc_slots (by rw [hscope]; rfl), hungrouped, hscope]
  constructor
  · rintro (⟨hfolds, row, hrow, rfl⟩ | ⟨hflat, row, hrow, rfl⟩)
    · exact ⟨row, .once hg hfolds hrow⟩
    · exact ⟨row, .perRecord hg hflat hrow⟩
  · rintro ⟨row, h⟩
    cases h with
    | perRecord _ flat slots_eq => exact Or.inr ⟨flat, row, slots_eq, rfl⟩
    | perGroup grouped => exact absurd hg grouped
    | once _ folds slots_eq => exact Or.inl ⟨folds, row, slots_eq, rfl⟩

/-- Groups are projected one by one, with aggregates and without. -/
theorem yields_selectShape_of_grouped (hg : p.groupKeys ≠ [])
    (hkeys : ∀ key ∈ p.groupKeys, key.sameAs (.list (slots items preloads)) = false) :
    (p.selectShape s (.list (slots items preloads))).Yields n p' k ↔
      ∃ row, p.OutputsRow s items preloads n row p' k := by
  have hgrouped : p.isGrouped = true := by
    rw [← Bool.not_eq_false, isGrouped_eq_false]
    exact hg
  have hscope : p.elementScope (.var n) = .bucket (.var n) p.groupKeys p.width := by
    rw [elementScope, if_pos hgrouped]
  have hk : (p.elementScope (.var n)).keySlot? (.list (slots items preloads)) = none := by
    rw [hscope]
    exact Scope.keySlot?_bucket_eq_none hkeys
  rw [yields_selectShape, yields_elementFunc_slots hk, hgrouped, hscope]
  constructor
  · rintro (⟨hfolds, -⟩ | ⟨-, row, hrow, rfl⟩)
    · cases hfolds
    · exact ⟨row, .perGroup hg hrow⟩
  · rintro ⟨row, h⟩
    cases h with
    | perRecord ungrouped | once ungrouped => exact absurd ungrouped hg
    | perGroup _ slots_eq => exact Or.inr ⟨rfl, row, slots_eq, rfl⟩

theorem yields_selectShape_slots
    (hkeys : ∀ key ∈ p.groupKeys, key.sameAs (.list (slots items preloads)) = false) :
    (p.selectShape s (.list (slots items preloads))).Yields n p' k ↔
      ∃ row, p.OutputsRow s items preloads n row p' k := by
  by_cases hg : p.groupKeys = []
  · exact yields_selectShape_of_ungrouped hg
  · exact yields_selectShape_of_grouped hg hkeys

end Pipeline

theorem Expr.IsPositional.select_eq {s : Setting} {p : Pipeline} {e : Expr} {items : List Expr}
    {preloads : List Nat} (h : e.IsPositional items preloads) :
    p.select s e preloads = p.selectShape s (.list (Pipeline.slots items preloads)) :=
  Pipeline.select_of_shape (Query.shape?_of_items? h.items_eq h.preloaded)

/-- A positional projection gives rows of one slot for each item and each preloaded
relation, computed in one scope: first the entities, then the preloaded relations,
then the other items. Two projections with the same entities and the same other
items compile alike, however these are mixed and under whichever constructor. -/
theorem positional_select (s : Setting) (p : Pipeline) {e : Expr} {items : List Expr}
    {preloads : List Nat} (he : e.IsPositional items preloads) :
    ((∀ key ∈ p.groupKeys, key.sameAs (.list (Pipeline.slots items preloads)) = false) →
      ∀ n p' k, (p.select s e preloads).Yields n p' k ↔
        ∃ row, row.length = items.length + preloads.length ∧
          p.OutputsRow s items preloads n row p' k) ∧
    ∀ e' items', e'.IsPositional items' preloads →
      items'.filter Expr.isEntity = items.filter Expr.isEntity →
      items'.filter (!·.isEntity) = items.filter (!·.isEntity) →
        p.select s e' preloads = p.select s e preloads := by
  constructor
  · intro hkeys n p' k
    rw [he.select_eq, Pipeline.yields_selectShape_slots hkeys]
    exact exists_congr fun row => (and_iff_right_of_imp fun h => h.length_eq).symm
  · intro e' items' he' hentities hothers
    rw [he'.select_eq, he.select_eq, Pipeline.slots, Pipeline.slots, hentities, hothers]

/-- Posts by author, with a whole post preloaded that is a key as well: the count
stands behind the posts, wherever the tuple has it. -/
theorem positional_select_of_groups :
    let posts : Pipeline := {
      term := .table none "posts", relations := [none]
      groupKeys := [.entity 0, .field 0 "author_id"] }
    let size : Expr := .aggregate .count (.entity 0) false
    let items : List Expr := [size, .entity 0, .field 0 "author_id"]
    let keys := (Term.var 3).bracket "group"
    let row := [keys.nth 0, keys.nth 0, ((Term.var 3).bracket "reduction").count, keys.nth 1]
    let out := posts.mapTerm (·.map (.func [3] (.makeArray row)))
    (posts.select {} (.tuple items) [0]).Yields 3 out 4 ∧
      (∃ cells : List Term, cells.length = 3 + 1 ∧ posts.OutputsRow {} items [0] 3 cells out 4) ∧
        posts.select {} (.list [.entity 0, size, .field 0 "author_id"]) [0] =
          posts.select {} (.tuple items) [0] := by
  intro posts size items keys row out
  have hitems : (Expr.tuple items).IsPositional items [0] := ⟨rfl, nofun⟩
  let mixed : List Expr := [.entity 0, size, .field 0 "author_id"]
  have hmixed : (Expr.list mixed).IsPositional mixed [0] := ⟨rfl, nofun⟩
  obtain ⟨hrow, halike⟩ := positional_select {} posts hitems
  have hselect : (posts.select {} (.tuple items) [0]).Yields 3 out 4 := rfl
  have hkeys : ∀ key ∈ posts.groupKeys, key.sameAs (.list (Pipeline.slots items [0])) = false := by
    decide
  exact ⟨hselect, (hrow hkeys 3 out 4).mp hselect, halike _ _ hmixed rfl rfl⟩

end DocQuery
