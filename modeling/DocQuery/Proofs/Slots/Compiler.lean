import DocQuery.Compiler
import DocQuery.Proofs.Pipeline.Stages
import DocQuery.Proofs.Slots.Expr

/-!
# Slot safety of compiled queries

Up to its projection a pipeline is a sequence whose elements have the shape that
its width and its keys say: a clause compiles its functions for that shape and
leaves a sequence of the next one. A projection ends the sequence, and its own
functions are the last.
-/

namespace DocQuery

namespace Term

variable {t f : Term} {sight : List (Nat × Shape)}

theorem fitsSight_nil_iff : t.FitsSight [] ↔ t.SlotSafe [] [] :=
  ⟨fun h => h.safe, fun h => ⟨h, by simp⟩⟩

@[simp] theorem Shape.width?_row (width : Nat) : (Shape.row width).width? = some width := by
  rw [Shape.row]
  split_ifs with h
  · rw [h]; rfl
  · rfl

@[simp] theorem shape?_table (db : Option String) (name : String) :
    (table db name).shape? sight = some (.sequence .document) := by
  cases db <;> simp [table, call, shape?]

@[simp] theorem shape?_filter : (t.filter f).shape? sight = t.shape? sight := by
  simp [filter, call, shape?]

@[simp] theorem shape?_orderBy (keys : List Term) :
    (t.orderBy keys).shape? sight = t.shape? sight := by
  simp [orderBy, call, shape?]

@[simp] theorem shape?_skip (m : Term) : (t.skip m).shape? sight = t.shape? sight := by
  simp [skip, call, shape?]

@[simp] theorem shape?_limit (m : Term) : (t.limit m).shape? sight = t.shape? sight := by
  simp [limit, call, shape?]

theorem shape?_group_ungroup {keys : List Term} {id : Nat} :
    (t.group (.func [id] (.makeArray keys))).ungroup.shape? sight =
      Shape.grouped? keys.length (t.shape? sight) := by
  simp [group, ungroup, call, shape?]

theorem fitsSight_table (db : Option String) (name : String) :
    (table db name).FitsSight sight := by
  cases db with
  | none => exact fitsSight_call rfl (by simp [string])
  | some db =>
      refine fitsSight_call rfl ?_
      simp only [List.forall_mem_cons]
      exact ⟨fitsSight_call rfl (by simp [string]), fitsSight_datum _, by simp⟩

end Term

namespace Pipeline

open Compile Term

variable {s : Setting} {p p' : Pipeline} {n k : Nat}

/-- The shape of the elements as the clauses see them. -/
def elementShape (p : Pipeline) : Term.Shape :=
  if p.isGrouped then .group p.groupKeys.length p.width else .row p.width

/-- A slot-safe sequence of elements of the shape that the clauses see. -/
structure Shaped (p : Pipeline) : Prop where
  fits : p.term.FitsSight []
  shape : p.term.shape? [] = some (.sequence p.elementShape)
  width_pos : 0 < p.width

theorem elementShape_of_groupKeys (h : p.groupKeys = []) : p.elementShape = .row p.width := by
  rw [elementShape, isGrouped_eq_false.mpr h]
  rfl

theorem SameElements.elementShape_eq (h : p.SameElements p') :
    p'.elementShape = p.elementShape := by
  rw [elementShape, elementShape, isGrouped, isGrouped, h.2, h.width_eq]

theorem shaped_ofSource (source : Source) : (ofSource s source).Shaped where
  fits := fitsSight_table _ _
  shape := shape?_table _ _
  width_pos := Nat.one_pos

/-! ## Clauses before the projection -/

theorem fits_elementFunc {e : Expr} {f : Term} (h : (p.elementFunc s e).Yields n f k) :
    ∃ body, f = .func [n] body ∧ body.FitsSight [(n, p.elementShape)] := by
  obtain ⟨body, hbody, rfl⟩ := yields_lambda.mp h
  refine ⟨body, rfl, Expr.fitsSight_of_yields hbody ?_ (by simp)⟩
  rw [elementScope, elementShape]
  split_ifs
  · exact .bucket (by simp)
  · exact .row (by simp)

/-- A function of one element, run on all of them. -/
theorem Shaped.fits_over {f : Term} {kind : Kind} {e : Expr} (hp : p.Shaped)
    (hk : ∀ rest, ranges [] [] kind (p.term :: rest) = p.term.elements [])
    (haccess : ∀ rest, accesses [] kind rest = [])
    (hf : (p.elementFunc s e).Yields n f k) : (call kind [p.term, f]).FitsSight [] := by
  obtain ⟨body, rfl, hbody⟩ := fits_elementFunc hf
  exact fitsSight_over hk haccess hp.fits hp.shape hbody rfl (by simp) (by simp)

/-- A clause that keeps the elements keeps their shape. -/
theorem Shaped.of_sameElements (hp : p.Shaped) (hsame : p.SameElements p')
    (fits : p'.term.FitsSight []) (hshape : p'.term.shape? [] = p.term.shape? []) :
    p'.Shaped where
  fits := fits
  shape := by rw [hshape, hp.shape, hsame.elementShape_eq]
  width_pos := hsame.width_eq ▸ hp.width_pos

theorem shaped_filterAll {conditions : List Expr} (hp : p.Shaped)
    (h : (p.filterAll s conditions).Yields n p' k) : p'.Shaped := by
  have hsame := sameElements_filterAll h
  rcases yields_filterAll.mp h with ⟨-, rfl, -⟩ | ⟨-, f, hf, rfl⟩
  · exact hp
  · exact hp.of_sameElements hsame (hp.fits_over (fun _ => rfl) (fun _ => rfl) hf) shape?_filter

theorem shaped_having {conditions : List Expr} (hp : p.Shaped)
    (h : (p.having s conditions).Yields n p' k) : p'.Shaped :=
  shaped_filterAll hp (yields_having.mp h).1

/-- The key function makes an array of all the keys, so a group has as many. -/
theorem shaped_groupBy {keys : List Expr} (hp : p.Shaped) (hnone : p.groupKeys = [])
    (h : (p.groupBy s keys).Yields n p' k) : p'.Shaped := by
  rcases yields_groupBy.mp h with ⟨-, rfl, -⟩ | ⟨hkeys, f, hf, rfl⟩
  · exact hp
  have hfits : (p.term.group f).FitsSight [] := hp.fits_over (fun _ => rfl) (fun _ => rfl) hf
  obtain ⟨body, hbody, rfl⟩ := yields_lambda.mp hf
  rw [elementScope, isGrouped_eq_false.mpr hnone] at hbody
  obtain ⟨v, ts, -, hts, rfl⟩ := (Expr.yields_compile_of_isPlain rfl rfl).mp hbody
  have hlength : ts.length = keys.length := hts.length_eq
  refine ⟨fitsSight_call rfl (by simpa using hfits), ?_, hp.width_pos⟩
  calc
    _ = Term.Shape.grouped? ts.length (p.term.shape? []) := shape?_group_ungroup
    _ = some (.sequence (.group keys.length p.width)) := by
      simp [hp.shape, elementShape_of_groupKeys hnone, Term.Shape.grouped?, hlength]
    _ = _ := by
      simp [elementShape, isGrouped, hkeys, width]

theorem slotSafe_orderKey {o : OrderTerm} {t : Term} (h : (p.orderKey s o).Yields n t k) :
    t.SlotSafe [] [p.elementShape] := by
  obtain ⟨f, hf, rfl⟩ := yields_orderKey.mp h
  obtain ⟨body, rfl, hbody⟩ := fits_elementFunc hf
  have hfunc : (Term.func [n] body).SlotSafe [] [p.elementShape] := hbody.func
  cases o.direction with
  | ascending | descending => exact .op (by simpa [ranges] using hfunc) (by simp)

theorem shaped_orderBy {order : List OrderTerm} (hp : p.Shaped)
    (h : (p.orderBy s order).Yields n p' k) : p'.Shaped := by
  have hsame := sameElements_orderBy h
  rcases yields_orderBy.mp h with ⟨-, rfl, -⟩ | ⟨-, ts, hts, rfl⟩
  · exact hp
  refine hp.of_sameElements hsame (fitsSight_nil_iff.mpr (.op ?_ (by simp))) (shape?_orderBy ts)
  have helements : ranges [] [] .orderBy (p.term :: ts) = [p.elementShape] := by
    simp [ranges, operandShapes, elements, hp.shape, Term.Shape.element?]
  rw [helements, List.forall_mem_cons]
  refine ⟨hp.fits.safe.around _, ?_⟩
  exact hts.forall_upTo (P := fun _ t => t.SlotSafe [] [p.elementShape]) (fun _ ht => ht)
    (fun o _ => grows_orderKey o) fun o _ i t j _ => slotSafe_orderKey

theorem shaped_counted {clause : String} {op : Term → Term → Term} {e? : Option Expr}
    (hop : ∀ t m, ∃ kind, Kind.isFlat kind ∧ op t m = call kind [t, m] ∧
      (op t m).shape? [] = t.shape? []) (hp : p.Shaped)
    (h : (p.counted s clause op e?).Yields n p' k) : p'.Shaped := by
  have hsame := sameElements_counted h
  rcases yields_counted.mp h with ⟨-, rfl, -⟩ | ⟨e, c, -, hc, rfl⟩
  · exact hp
  obtain ⟨m, -, -, rfl⟩ := Expr.yields_compileCount.mp hc
  obtain ⟨kind, hflat, heq, hshape⟩ := hop p.term (.datum (.number m))
  refine hp.of_sameElements hsame ?_ hshape
  show (op p.term _).FitsSight []
  rw [heq]
  exact fitsSight_call hflat (by simpa using hp.fits)

theorem shaped_offset {e? : Option Expr} (hp : p.Shaped) (h : (p.offset s e?).Yields n p' k) :
    p'.Shaped :=
  shaped_counted (fun _ m => ⟨.skip, rfl, rfl, shape?_skip m⟩) hp h

theorem shaped_limit {e? : Option Expr} (hp : p.Shaped) (h : (p.limit s e?).Yields n p' k) :
    p'.Shaped :=
  shaped_counted (fun _ m => ⟨.limit, rfl, rfl, shape?_limit m⟩) hp h

/-! ## Joins -/

theorem fitsSight_merge (width m : Nat) :
    (merge width (.var m)).FitsSight [(m, .pair width)] := by
  have hside : ∀ name, name = "left" ∨ name = "right" →
      ((Term.var m).bracket name).FitsSight [(m, .pair width)] := by
    intro name hname
    refine Scope.fitsSight_of_reads (Scope.slotSafe_bracket (.var m) name) (reads_bracket ..)
      List.lookup_cons_self ?_
    simpa [Term.Shape.Allows] using hname
  rw [merge]
  split_ifs
  · exact fitsSight_makeArray (by simp [hside])
  · exact fitsSight_call rfl (by simp [hside])

/-- The merged halves are a row with one relation more. -/
theorem shape?_merge {width : Nat} (hw : 0 < width) (m : Nat) :
    (merge width (.var m)).shape? [(m, .pair width)] = some (.row (width + 1)) := by
  have hleft : ((Term.var m).bracket "left").shape? [(m, .pair width)] =
      some (.row width) := by
    simp [bracket, Term.string, call, Term.shape?, Term.Shape.field?]
  have hright : ((Term.var m).bracket "right").shape? [(m, .pair width)] =
      some .document := by
    simp [bracket, Term.string, call, Term.shape?, Term.Shape.field?]
  by_cases h : width = 1
  · subst h
    simp [merge, Term.shape?, hleft, hright, Term.Shape.row]
  · simp [merge, h, Term.append, call, Term.shape?, hleft, hright, Term.Shape.row,
      Nat.ne_of_gt hw]

theorem fits_paired {j : Join} {t : Term} (hp : p.Shaped) (hnone : p.groupKeys = [])
    (h : (p.paired s j).Yields n t k) :
    t.FitsSight [] ∧ t.shape? [] = some (.sequence (.pair p.width)) := by
  have hshape : p.term.shape? [] = some (.sequence (.row p.width)) := by
    rw [hp.shape, elementShape_of_groupKeys hnone]
  have htable (name : String) : (table s.config.database name).FitsSight [] := fitsSight_table _ _
  rw [paired] at h
  split_ifs at h
  · obtain ⟨r, link, slot, -, hslot, -, rfl⟩ := yields_pairByLink.mp h
    have hkey : (slot.bracket link.leftKey).FitsSight [(n, .row p.width)] :=
      Scope.fitsSight_slot_bracket List.lookup_cons_self hslot
    have hpairs (os : List (String × Term)) (hos : ∀ o ∈ os, o.2.FitsSight []) :
        (Term.op .eqJoin [p.term, .func [n] (slot.bracket link.leftKey),
          .table s.config.database j.source.table] os).FitsSight [] ∧
        (Term.op .eqJoin [p.term, .func [n] (slot.bracket link.leftKey),
          .table s.config.database j.source.table] os).shape? [] =
            some (.sequence (.pair p.width)) := by
      constructor
      · exact fitsSight_over (fun _ => rfl) (fun _ => rfl) hp.fits hshape hkey rfl
          (by simp [htable]) hos
      · simp [Term.shape?, hshape, Term.Shape.joined?]
    split_ifs
    · exact hpairs [] (by simp)
    · exact hpairs [("index", .string link.rightKey)] (by simp [Term.string])
  · obtain ⟨body, hbody, rfl⟩ := yields_pairByPredicate.mp h
    have hright : List.lookup (n + 1) [(n, Term.Shape.row p.width), (n + 1, .document)] =
        some .document := lookup_second (Nat.succ_ne_self n) _ _
    have hfits : body.FitsSight [(n, .row p.width), (n + 1, .document)] :=
      Expr.fitsSight_of_yields hbody (.pair List.lookup_cons_self hright) (by simp)
    exact ⟨fitsSight_innerJoin hp.fits (htable _) hshape (shape?_table _ _) hfits
        (Nat.succ_ne_self n), by simp [innerJoin, call, Term.shape?, hshape, Term.Shape.joined?]⟩

theorem shaped_join {j : Join} (hp : p.Shaped) (hnone : p.groupKeys = [])
    (h : (p.join s j).Yields n p' k) : p'.Shaped := by
  obtain ⟨t, m, ht, -, rfl⟩ := yields_join.mp h
  obtain ⟨hfits, hshape⟩ := fits_paired hp hnone ht
  refine ⟨?_, ?_, ?_⟩
  · exact fitsSight_over (fun _ => rfl) (fun _ => rfl) hfits hshape (fitsSight_merge _ m) rfl
      (by simp) (by simp)
  · have hnone' : ({ p with
        term := t.map (.func [m] (merge p.width (.var m)))
        relations := p.relations ++ [j.source.schema] } : Pipeline).groupKeys = [] := hnone
    rw [elementShape_of_groupKeys hnone']
    simp only [Term.map, call, Term.shape?, hshape, shape?_merge hp.width_pos, Option.map_some]
    simp [width]
  · simp [width]

theorem shaped_joins {js : List Join} (hp : p.Shaped) (hnone : p.groupKeys = [])
    (h : (p.joins s js).Yields n p' k) : p'.Shaped := by
  induction js generalizing p n with
  | nil =>
      obtain ⟨rfl, -⟩ := yields_joins_nil.mp h
      exact hp
  | cons j js ih =>
      obtain ⟨q, m, hq, hp'⟩ := yields_joins_cons.mp h
      refine ih (shaped_join hp hnone hq) ?_ hp'
      obtain ⟨t, i, -, -, rfl⟩ := yields_join.mp hq
      exact hnone

/-! ## Projections -/

theorem shaped_flattened (hp : p.Shaped) (h : p.flattened.Yields n p' k) :
    p'.Shaped ∧ p'.groupKeys = [] ∧ p'.width = p.width := by
  rcases yields_flattened.mp h with ⟨hg, rfl, -⟩ | ⟨hg, -, rfl⟩
  · exact ⟨hp, isGrouped_eq_false.mp hg, rfl⟩
  refine ⟨⟨?_, ?_, hp.width_pos⟩, rfl, rfl⟩
  · have hreduction : ((Term.var n).bracket "reduction").FitsSight [(n, p.elementShape)] := by
      refine Scope.fitsSight_of_reads (Scope.slotSafe_bracket (.var n) _) (reads_bracket ..)
        List.lookup_cons_self ?_
      simp [elementShape, hg, Term.Shape.Allows]
    exact fitsSight_over (fun _ => rfl) (fun _ => rfl) hp.fits hp.shape hreduction rfl (by simp)
      (by simp)
  · have hbody : ((Term.var n).bracket "reduction").shape? [(n, p.elementShape)] =
        some (.sequence (.row p.width)) := by
      simp [elementShape, hg, bracket, Term.string, call, Term.shape?, Term.Shape.field?]
    rw [elementShape_of_groupKeys rfl]
    simp [concatMap, call, Term.shape?, hp.shape, hbody, width]

theorem fits_selectEntity {r : Nat} (hp : p.Shaped) (h : (p.selectEntity r).Yields n p' k) :
    p'.term.FitsSight [] := by
  obtain ⟨-, q, m, hq, hcases⟩ := yields_selectEntity.mp h
  obtain ⟨hshaped, hnone, -⟩ := shaped_flattened hp hq
  rcases hcases with ⟨-, rfl, -⟩ | ⟨-, slot, hslot, -, rfl⟩
  · exact hshaped.fits
  · have hshape := hshaped.shape
    rw [elementShape_of_groupKeys hnone] at hshape
    exact fitsSight_over (fun _ => rfl) (fun _ => rfl) hshaped.fits hshape
      (Scope.fitsSight_slot List.lookup_cons_self hslot) rfl (by simp) (by simp)

theorem fits_selectShape {shape : Expr} (hp : p.Shaped)
    (h : (p.selectShape s shape).Yields n p' k) : p'.term.FitsSight [] := by
  rcases yields_selectShape.mp h with ⟨htotal, hselect⟩ | ⟨-, f, hf, rfl⟩
  · obtain ⟨t, ht, rfl⟩ := yields_selectTotal.mp hselect
    have hnone : p.groupKeys = [] := by simp_all [isGrouped]
    have hfits : t.FitsSight [] := by
      refine Expr.fitsSight_of_yields ht (.total hp.fits ?_) (by simp)
      rw [hp.shape, elementShape_of_groupKeys hnone]
    split_ifs
    · exact fitsSight_makeArray (by simpa using hfits)
    · exact hfits
  · exact hp.fits_over (fun _ => rfl) (fun _ => rfl) hf

theorem fits_select {projection : Expr} {preloads : List Nat} (hp : p.Shaped)
    (h : (p.select s projection preloads).Yields n p' k) : p'.term.FitsSight [] := by
  rcases hs : Pipeline.shape? projection preloads with _ | shape
  · obtain ⟨r, rfl, rfl⟩ := shape?_eq_none.mp hs
    exact fits_selectEntity hp h
  · rw [select_of_shape hs] at h
    exact fits_selectShape hp h

theorem fits_distinct {d : Distinct} (hp : p.term.FitsSight [])
    (h : (p.distinct d).Yields n p' k) : p'.term.FitsSight [] := by
  obtain ⟨-, hp'⟩ := yields_distinct.mp h
  have hdistinct : p.term.distinct.FitsSight [] := fitsSight_call rfl (by simpa using hp)
  cases d with
  | off =>
      obtain rfl := hp'
      exact hp
  | flag on =>
      cases on with
      | false =>
          obtain rfl := hp'
          exact hp
      | true =>
          obtain rfl := hp'
          split_ifs
          · exact hp
          · exact hdistinct
  | byExpr e => exact hp'.elim

theorem fits_ofQuery {q : Query} (h : (ofQuery s q).Yields n p' k) : p'.term.FitsSight [] := by
  by_cases hd : ∃ e, q.distinct = .byExpr e
  · obtain ⟨e, hd⟩ := hd
    rw [ofQuery_byExpr hd] at h
    exact absurd h not_yields_throw
  rw [ofQuery_eq fun e h => hd ⟨e, h⟩] at h
  simp only [yields_bind] at h
  obtain ⟨p₁, n₁, h₁, p₂, n₂, h₂, p₃, n₃, h₃, p₄, n₄, h₄, p₅, n₅, h₅, p₆, n₆, h₆, p₇, n₇, h₇,
    p₈, n₈, h₈, h₉⟩ := h
  have hnone₁ : p₁.groupKeys = [] := (relations_joins h₁).2
  have hnone₂ : p₂.groupKeys = [] := (sameElements_filterAll h₂).2.trans hnone₁
  have hrows : p₂.Shaped := shaped_filterAll (shaped_joins (shaped_ofSource _) rfl h₁) h₂
  have hgroups : p₄.Shaped := shaped_having (shaped_groupBy hrows hnone₂ h₃) h₄
  have hordered : p₇.Shaped :=
    shaped_limit (shaped_offset (shaped_orderBy hgroups h₅) h₆) h₇
  exact fits_distinct (fits_select hordered h₈) h₉

end Pipeline

/-- A compiled query reads no slot that does not exist: every function of its
term reads its variables only as the elements that it runs on allow. -/
theorem slotSafe_compileQuery (c : Compiler) (q : Query) (params : Params) (t : Term)
    (h : c.compileQuery q params = .ok t) : t.SlotSafe [] [] := by
  obtain ⟨k, hk⟩ := Compile.outcome_eq_ok.mp h
  simp only [Compiler.query, Compile.yields_bind, Compile.yields_pure] at hk
  obtain ⟨p, j, hp, rfl, rfl⟩ := hk
  exact (Pipeline.fits_ofQuery hp).safe

/-- The names of authors with more than one post and how many posts they have,
with the busiest author first. -/
theorem slotSafe_compileQuery_of_busy_authors :
    let posts : Source := ⟨"posts", none⟩
    let users : Source := ⟨"users", none⟩
    let count : Expr := .aggregate .count (.field 0 "id") false
    let q : Query :=
      { source := posts
        joins := [⟨users, .compare .eq (.field 0 "author") (.field 1 "id")⟩]
        groupKeys := [.field 1 "name"]
        having := [.compare .gt count (.param 0)]
        order := [⟨.descending, count⟩]
        projection := .list [.field 1 "name", count] }
    ∃ t, ({} : Compiler).compileQuery q [.int 1] = .ok t ∧ t.SlotSafe [] [] := by
  intro posts users count q
  exact ⟨_, rfl, slotSafe_compileQuery {} q [.int 1] _ rfl⟩

end DocQuery
