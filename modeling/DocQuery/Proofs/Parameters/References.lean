import DocQuery.Proofs.Acceptance.Expr
import DocQuery.Proofs.Expr.Congruence
import DocQuery.Proofs.Pipeline.Writes

/-!
# Parameters that are referred to

A compilation sees of the parameters what its expressions take from them. Whoever
gets the same out of other parameters gets the same term, so that parameters can be
appended, and those that nothing refers to can be changed. A run of parameters is
checked against their number even if it is empty; only there does the number matter.
-/

namespace DocQuery

/-! ## References -/

/-- The expression itself refers to the parameter at this position. -/
def Expr.refersTo (i : Nat) : Expr → Bool
  | .param j => j = i
  | .paramSlice start count => start ≤ i ∧ i < start + count
  | _ => false

/-- The parameter at this position occurs in one of the expressions. -/
def Expr.Mentioned (es : List Expr) (i : Nat) : Prop :=
  ∃ e ∈ es, ∃ x ∈ e.parts, x.refersTo i

instance (es : List Expr) (i : Nat) : Decidable (Expr.Mentioned es i) :=
  inferInstanceAs (Decidable (∃ e ∈ es, ∃ x ∈ e.parts, x.refersTo i))

/-- Some parameters serve the expressions as others do: what is mentioned is there
with the same value, and a run that lies within the others lies within them. -/
structure Params.ServesAs (es : List Expr) (ps ps' : Params) : Prop where
  value : ∀ i, Expr.Mentioned es i → ∀ v, ps[i]? = some v → ps'[i]? = some v
  run : ∀ e ∈ es, ∀ start count, .paramSlice start count ∈ e.parts →
    start + count ≤ ps.length → start + count ≤ ps'.length

/-- The expressions of a query. One to be distinct by is left out: a query is
refused for it, and a write does not look at it. -/
def Query.exprs (q : Query) : List Expr :=
  q.joins.map (·.condition) ++ q.filters ++ q.groupKeys ++ q.having ++ q.order.map (·.key) ++
    q.offset.toList ++ q.limit.toList ++ [q.projection]

/-- A successful compilation looks at the mentioned parameters only. -/
structure Params.ReadsMentioned (es : List Expr) (compiled : Params → Except Rejection Term) :
    Prop where
  agree {ps ps' : Params} {t : Term}
    (same : ∀ i, Expr.Mentioned es i → ps'[i]? = ps[i]?)
    (runs : ∀ e ∈ es, ∀ start count, .paramSlice start count ∈ e.parts →
      start + count ≤ ps'.length)
    (h : compiled ps = .ok t) : compiled ps' = .ok t
  append {ps : Params} {t : Term} (more : Params) (h : compiled ps = .ok t) :
    compiled (ps ++ more) = .ok t
  change {ps ps' : Params} {t : Term} (length : ps'.length = ps.length)
    (same : ∀ i, Expr.Mentioned es i → ps'[i]? = ps[i]?) (h : compiled ps = .ok t) :
    compiled ps' = .ok t

variable {engine : RegexEngine} {ps ps' : Params}

theorem Params.readsMentioned {es : List Expr} {compiled : Params → Except Rejection Term}
    (h : ∀ ps ps', ps.ServesAs es ps' → ∀ t, compiled ps = .ok t → compiled ps' = .ok t) :
    Params.ReadsMentioned es compiled where
  agree same runs ht :=
    h _ _ ⟨fun i hi v hv => (same i hi).trans hv, fun e he start count hx _ =>
      runs e he start count hx⟩ _ ht
  append more ht := by
    refine h _ _ ⟨fun i _ v hv => ?_, fun e _ start count _ hlen => ?_⟩ _ ht
    · obtain ⟨hi, -⟩ := List.getElem?_eq_some_iff.mp hv
      rwa [List.getElem?_append_left hi]
    · rw [List.length_append]
      exact Nat.le_add_right_of_le hlen
  change length same ht :=
    h _ _ ⟨fun i hi v hv => (same i hi).trans hv, fun e _ start count _ hlen =>
      Nat.le_trans hlen (Nat.le_of_eq length.symm)⟩ _ ht

namespace Expr

/-- What the expression and all below it take from some parameters, they take from
others as well. -/
def KeepsData (engine : RegexEngine) (ps ps' : Params) (e : Expr) : Prop :=
  ∀ x ∈ e.parts, ∀ v, x.datum engine ps = .ok v → x.datum engine ps' = .ok v

/-! ## Data -/

theorem map_eq_ok_of_imp {α β : Type} {x y : Except Rejection α} {g : α → β}
    (h : ∀ a, x = .ok a → y = .ok a) {b : β} (hb : x.map g = .ok b) : y.map g = .ok b := by
  obtain ⟨a, ha, rfl⟩ := exists_of_map_ok hb
  rw [h a ha]
  rfl

theorem slice_eq_ok_of_imp {start count : Nat}
    (hvalue : ∀ i, start ≤ i ∧ i < start + count → ∀ v, ps[i]? = some v → ps'[i]? = some v)
    (hrun : start + count ≤ ps.length → start + count ≤ ps'.length) {vs : List Json}
    (h : ps.slice start count = .ok vs) : ps'.slice start count = .ok vs := by
  obtain ⟨⟨hstop, hlen⟩, rfl⟩ := slice_eq_ok.mp h
  refine slice_eq_ok.mpr ⟨⟨hstop, hrun hlen⟩, ?_⟩
  refine List.ext_getElem? fun i => ?_
  rw [List.getElem?_take, List.getElem?_take]
  split_ifs with hi
  · -- the run lies within the first parameters, so it has a value at each position
    have hget : start + i < ps.length := by omega
    rw [List.getElem?_drop, List.getElem?_drop]
    exact (List.getElem?_eq_getElem hget).trans
      (hvalue _ ⟨by omega, by omega⟩ _ (List.getElem?_eq_getElem hget)).symm
  · rfl

theorem keepsData_of_servesAs {es : List Expr} (h : ps.ServesAs es ps') {e : Expr} (he : e ∈ es) :
    e.KeepsData engine ps ps' := by
  intro x hx v hv
  -- a parameter is taken as it is, as a list or as a pattern
  have hparam {i : Nat} (hi : .param i ∈ x.parts) (v : Json) (hv : ps[i]? = some v) :
      ps'[i]? = some v :=
    h.value i ⟨e, he, .param i, mem_parts_of_mem_parts hi hx, decide_eq_true rfl⟩ v hv
  cases x with
  | param i =>
      exact value_eq_ok.mpr (hparam (self_mem_parts _) v (value_eq_ok.mp hv))
  | paramSlice start count =>
      refine map_eq_ok_of_imp (fun vs => slice_eq_ok_of_imp ?_ (h.run e he start count hx)) hv
      exact fun i hi => h.value i ⟨e, he, _, hx, decide_eq_true hi⟩
  | isIn y l =>
      cases l with
      | param i =>
          have hi : .param i ∈ (isIn y (.param i)).parts := by simp [parts]
          refine map_eq_ok_of_imp (fun vs hvs => ?_) hv
          exact items_eq_ok.mpr (hparam hi _ (items_eq_ok.mp hvs))
      | _ => exact hv
  | like y p ignoreCase =>
      refine map_eq_ok_of_imp (fun q hq => ?_) hv
      obtain ⟨s, hs, hq⟩ := likePattern_eq_ok.mp hq
      refine likePattern_eq_ok.mpr ⟨s, ?_, hq⟩
      cases p with
      | param i =>
          have hi : .param i ∈ (like y (.param i) ignoreCase).parts := by simp [parts]
          exact patternText_param_eq_ok.mpr (hparam hi _ (patternText_param_eq_ok.mp hs))
      | literal l => cases l <;> exact hs
      | _ => exact hs
  | _ => exact hv

theorem KeepsData.operand {e x : Expr} (h : e.KeepsData engine ps ps') (hx : x ∈ e.operands) :
    x.KeepsData engine ps ps' :=
  fun y hy => h y (parts_subset_of_mem_operands hx hy)

theorem keepsData_of_items {e : Expr} {items : List Expr} (hparts : e.parts = e :: partsAll items)
    (hdatum : e.datum engine ps' = e.datum engine ps) (h : ∀ x ∈ items, x.KeepsData engine ps ps') :
    e.KeepsData engine ps ps' := by
  intro x hx
  rw [hparts] at hx
  rcases List.mem_cons.mp hx with rfl | hx
  · exact fun v hv => hdatum.trans hv
  · obtain ⟨y, hy, hxy⟩ := mem_partsAll.mp hx
    exact h y hy x hxy

theorem keepsData_entity (r : Nat) : (entity r).KeepsData engine ps ps' := by
  intro x hx v hv
  rw [List.mem_singleton.mp hx] at hv ⊢
  exact hv

end Expr

/-! ## Compilations -/

namespace Compile

variable {α β : Type}

/-- Whatever the first compilation yields, the second yields too. -/
abbrev KeptBy (m m' : Compile α) : Prop := MatchedBy Eq m m'

theorem keptBy_refl (m : Compile α) : m.KeptBy m := .refl (fun _ => rfl) m

theorem KeptBy.bind {m m' : Compile α} {f f' : α → Compile β} (hm : m.KeptBy m')
    (hf : ∀ a, (f a).KeptBy (f' a)) : (m >>= f).KeptBy (m' >>= f') :=
  MatchedBy.bind hm fun a _ hab => hab ▸ hf a

/-- What follows is the same. -/
theorem KeptBy.bind_right {m m' : Compile α} (hm : m.KeptBy m') (f : α → Compile β) :
    (m >>= f).KeptBy (m' >>= f) :=
  hm.bind fun a => keptBy_refl (f a)

theorem KeptBy.mapM {f f' : α → Compile β} {as : List α} (h : ∀ a ∈ as, (f a).KeptBy (f' a)) :
    (as.mapM f).KeptBy (as.mapM f') := by
  have hall := MatchedBy.mapM h
  rwa [List.forall₂_eq_eq_eq] at hall

theorem KeptBy.lambda {body body' : Term → Compile Term} (h : ∀ t, (body t).KeptBy (body' t)) :
    (lambda body).KeptBy (lambda body') :=
  (keptBy_refl fresh).bind fun _ => (h _).bind_right _

theorem KeptBy.lambda₂ {body body' : Term → Term → Compile Term}
    (h : ∀ t u, (body t u).KeptBy (body' t u)) : (lambda₂ body).KeptBy (lambda₂ body') :=
  (keptBy_refl fresh).bind fun _ => (keptBy_refl fresh).bind fun _ => (h _ _).bind_right _

theorem KeptBy.outcome {m m' : Compile α} (h : m.KeptBy m') {a : α} (ha : m.outcome = .ok a) :
    m'.outcome = .ok a := by
  obtain ⟨k, hk⟩ := outcome_eq_ok.mp ha
  obtain ⟨_, hb, rfl⟩ := h 1 a k hk
  exact outcome_eq_ok.mpr ⟨k, hb⟩

end Compile

namespace Expr

open Compile

theorem keptBy_compile {e : Expr} (h : e.KeepsData engine ps ps') (scope : Scope) :
    (e.compile engine ps scope).KeptBy (e.compile engine ps' scope) := by
  induction e using inductionOnOperands generalizing scope with
  | step e ih =>
      rcases hk : scope.keySlot? e with _ | slot
      · cases e with
        | field | entity | update =>
            rw [compile.eq_def, compile.eq_def, hk]
            exact keptBy_refl _
        | aggregate func arg distinct =>
            rcases hr : scope.rows? with _ | ⟨rows, width⟩
            · rw [compile_aggregate_of_noRows hk hr]
              exact matchedBy_throw
            · rw [compile_aggregate hk hr, compile_aggregate hk hr]
              have harg := List.mem_singleton_self arg
              split_ifs
              · exact keptBy_refl _
              · exact keptBy_refl _
              · exact (KeptBy.lambda fun row => ih arg harg (h.operand harg) _).bind_right _
        | _ =>
            have hdatum :
                KeptBy (liftM (datum engine ps _) : Compile Json) (liftM (datum engine ps' _)) :=
              matchedBy_lift fun v hv => ⟨v, h _ (self_mem_parts _) v hv, rfl⟩
            rw [compile_of_isPlain rfl hk, compile_of_isPlain rfl hk]
            exact hdatum.bind fun v =>
              (KeptBy.mapM fun x hx => ih x hx (h.operand hx) scope).bind_right _
      · rw [compile_of_keySlot hk, compile_of_keySlot hk]
        exact keptBy_refl _

theorem keptBy_compileCount {e : Expr} (h : e.KeepsData engine ps ps') (clause : String) :
    (e.compileCount engine ps clause).KeptBy (e.compileCount engine ps' clause) :=
  (keptBy_compile h .empty).bind_right _

theorem keptBy_compileUpdate {e : Expr} (h : e.KeepsData engine ps ps') (row : Term) :
    (e.compileUpdate engine ps row).KeptBy (e.compileUpdate engine ps' row) := by
  cases e with
  | update op name v =>
      exact (keptBy_compile (h.operand (List.mem_singleton_self v)) _).bind_right _
  | _ => exact matchedBy_throw

end Expr

/-! ## Pipelines -/

namespace Pipeline

open Compile

variable {c : Compiler} {p : Pipeline}

theorem keptBy_elementFunc {e : Expr} (h : e.KeepsData c.engine ps ps') :
    (p.elementFunc (c.setting ps) e).KeptBy (p.elementFunc (c.setting ps') e) :=
  KeptBy.lambda fun _ => Expr.keptBy_compile h _

theorem keptBy_filterAll {conditions : List Expr}
    (h : ∀ e ∈ conditions, e.KeepsData c.engine ps ps') :
    (p.filterAll (c.setting ps) conditions).KeptBy (p.filterAll (c.setting ps') conditions) := by
  rw [filterAll, filterAll]
  split_ifs
  · exact keptBy_refl _
  · have hand : (Expr.and conditions).KeepsData c.engine ps ps' := Expr.keepsData_of_items rfl rfl h
    exact (keptBy_elementFunc hand).bind_right _

theorem keptBy_groupBy {keys : List Expr} (h : ∀ e ∈ keys, e.KeepsData c.engine ps ps') :
    (p.groupBy (c.setting ps) keys).KeptBy (p.groupBy (c.setting ps') keys) := by
  rw [groupBy, groupBy]
  split_ifs
  · exact keptBy_refl _
  · have hlist : (Expr.list keys).KeepsData c.engine ps ps' := Expr.keepsData_of_items rfl rfl h
    exact (keptBy_elementFunc hlist).bind_right _

theorem keptBy_having {conditions : List Expr}
    (h : ∀ e ∈ conditions, e.KeepsData c.engine ps ps') :
    (p.having (c.setting ps) conditions).KeptBy (p.having (c.setting ps') conditions) := by
  rw [having, having]
  split_ifs
  · exact keptBy_refl _
  · exact keptBy_refl _
  · exact keptBy_filterAll h

theorem keptBy_orderBy {order : List OrderTerm}
    (h : ∀ o ∈ order, o.key.KeepsData c.engine ps ps') :
    (p.orderBy (c.setting ps) order).KeptBy (p.orderBy (c.setting ps') order) := by
  rw [orderBy, orderBy]
  split_ifs
  · exact keptBy_refl _
  · exact (KeptBy.mapM fun o ho => (keptBy_elementFunc (h o ho)).bind_right _).bind_right _

theorem keptBy_counted {clause : String} {op : Term → Term → Term} {e? : Option Expr}
    (h : ∀ e ∈ e?, e.KeepsData c.engine ps ps') :
    (p.counted (c.setting ps) clause op e?).KeptBy (p.counted (c.setting ps') clause op e?) := by
  cases e? with
  | none => exact keptBy_refl _
  | some e => exact (Expr.keptBy_compileCount (h e rfl) clause).bind_right _

/-- A join by association takes nothing from the parameters. -/
theorem keptBy_join {j : Join} (h : j.condition.KeepsData c.engine ps ps') :
    (p.join (c.setting ps) j).KeptBy (p.join (c.setting ps') j) := by
  rw [join, join]
  split_ifs
  · exact keptBy_refl _
  · have hpairs : (p.pairByPredicate (c.setting ps) j).KeptBy
        (p.pairByPredicate (c.setting ps') j) :=
      (KeptBy.lambda₂ fun _ _ => Expr.keptBy_compile h _).bind_right _
    exact hpairs.bind_right _

theorem keptBy_joins {js : List Join} (h : ∀ j ∈ js, j.condition.KeepsData c.engine ps ps') :
    (p.joins (c.setting ps) js).KeptBy (p.joins (c.setting ps') js) := by
  induction js generalizing p with
  | nil =>
      rw [joins, joins, List.foldlM_nil, List.foldlM_nil]
      exact keptBy_refl _
  | cons j js ih =>
      rw [List.forall_mem_cons] at h
      rw [joins, joins, List.foldlM_cons, List.foldlM_cons]
      exact (keptBy_join h.1).bind fun q => ih h.2

theorem keptBy_selectShape {shape : Expr} (h : shape.KeepsData c.engine ps ps') :
    (p.selectShape (c.setting ps) shape).KeptBy (p.selectShape (c.setting ps') shape) := by
  rw [selectShape, selectShape]
  split_ifs
  · exact (Expr.keptBy_compile h _).bind_right _
  · exact (keptBy_elementFunc h).bind_right _

theorem keepsData_list_slots {items : List Expr} {preloads : List Nat}
    (h : ∀ e ∈ items, e.KeepsData engine ps ps') :
    (Expr.list (slots items preloads)).KeepsData engine ps ps' := by
  refine Expr.keepsData_of_items rfl rfl fun x hx => ?_
  rcases List.mem_append.mp ((slots_perm items preloads).mem_iff.mp hx) with hx | hx
  · exact h x hx
  · obtain ⟨r, -, rfl⟩ := List.mem_map.mp hx
    exact Expr.keepsData_entity r

theorem keepsData_of_shape {e shape : Expr} {preloads : List Nat}
    (hs : shape? e preloads = some shape) (h : e.KeepsData engine ps ps') :
    shape.KeepsData engine ps ps' := by
  cases e with
  | entity r =>
      simp only [shape?] at hs
      split_ifs at hs
      cases hs
      exact keepsData_list_slots fun x hx => List.mem_singleton.mp hx ▸ h
  | list items | tuple items =>
      cases hs
      exact keepsData_list_slots fun x hx => h.operand hx
  | _ =>
      cases hs
      exact h

theorem keptBy_select {projection : Expr} {preloads : List Nat}
    (h : projection.KeepsData c.engine ps ps') :
    (p.select (c.setting ps) projection preloads).KeptBy
      (p.select (c.setting ps') projection preloads) := by
  rcases hs : shape? projection preloads with _ | shape
  · obtain ⟨r, rfl, rfl⟩ := shape?_eq_none.mp hs
    exact keptBy_refl _
  · rw [select_of_shape hs, select_of_shape hs]
    exact keptBy_selectShape (keepsData_of_shape hs h)

theorem keptBy_ofQuery {q : Query} (h : ∀ e ∈ q.exprs, e.KeepsData c.engine ps ps') :
    (ofQuery (c.setting ps) q).KeptBy (ofQuery (c.setting ps') q) := by
  simp only [Query.exprs, List.forall_mem_append, List.forall_mem_map, List.forall_mem_singleton,
    Option.mem_toList] at h
  obtain ⟨⟨⟨⟨⟨⟨⟨hjoins, hfilters⟩, hkeys⟩, hhaving⟩, horder⟩, hoffset⟩, hlimit⟩, hprojection⟩ := h
  by_cases hd : ∃ e, q.distinct = .byExpr e
  · obtain ⟨e, hd⟩ := hd
    rw [ofQuery_byExpr hd]
    exact matchedBy_throw
  · rw [ofQuery_eq fun e h => hd ⟨e, h⟩, ofQuery_eq fun e h => hd ⟨e, h⟩]
    refine (keptBy_joins hjoins).bind fun p₁ => (keptBy_filterAll hfilters).bind fun p₂ => ?_
    refine (keptBy_groupBy hkeys).bind fun p₃ => (keptBy_having hhaving).bind fun p₄ => ?_
    refine (keptBy_orderBy horder).bind fun p₅ => (keptBy_counted hoffset).bind fun p₆ => ?_
    exact (keptBy_counted hlimit).bind fun p₇ => (keptBy_select hprojection).bind_right _

theorem keptBy_writeScope {q : Query} (h : ∀ e ∈ q.filters, e.KeepsData c.engine ps ps') :
    (writeScope (c.setting ps) q).KeptBy (writeScope (c.setting ps') q) := by
  rw [writeScope, writeScope]
  split
  · exact keptBy_refl _
  · exact keptBy_filterAll h

end Pipeline

/-! ## Compilers -/

namespace Compiler

open Compile

variable {c : Compiler} {q : Query}

theorem filters_subset_exprs (q : Query) : q.filters ⊆ q.exprs := by
  intro e he
  simp [Query.exprs, he]

theorem keptBy_query (h : ∀ e ∈ q.exprs, e.KeepsData c.engine ps ps') :
    (c.query q ps).KeptBy (c.query q ps') :=
  (Pipeline.keptBy_ofQuery h).bind_right _

theorem keptBy_updateAll {updates : List Expr}
    (hq : ∀ e ∈ q.filters, e.KeepsData c.engine ps ps')
    (hupdates : ∀ e ∈ updates, e.KeepsData c.engine ps ps') :
    (c.updateAll q ps updates).KeptBy (c.updateAll q ps' updates) := by
  have hpatch (row : Term) :
      ((c.setting ps).patch updates row).KeptBy ((c.setting ps').patch updates row) :=
    (KeptBy.mapM fun e he => Expr.keptBy_compileUpdate (hupdates e he) row).bind_right _
  refine (Pipeline.keptBy_writeScope hq).bind fun p => ?_
  rw [Setting.updateAllTerm, Setting.updateAllTerm]
  split_ifs
  · exact keptBy_refl _
  · exact (KeptBy.lambda hpatch).bind_right _

theorem keptBy_deleteAll (h : ∀ e ∈ q.filters, e.KeepsData c.engine ps ps') :
    (c.deleteAll q ps).KeptBy (c.deleteAll q ps') :=
  (Pipeline.keptBy_writeScope h).bind_right _

end Compiler

/-- A query, an update and a delete that compile do so with the same term for all
parameters that agree on the mentioned ones and hold the runs, for more parameters,
and for others in the places that nothing mentions. -/
theorem compiled_readsMentioned (c : Compiler) (q : Query) (updates : List Expr) :
    Params.ReadsMentioned q.exprs (c.compileQuery q) ∧
      Params.ReadsMentioned (q.exprs ++ updates) (c.compileUpdateAll q · updates) ∧
        Params.ReadsMentioned q.exprs (c.compileDeleteAll q) := by
  refine ⟨?_, ?_, ?_⟩
  · refine Params.readsMentioned fun ps ps' h t => (Compiler.keptBy_query fun e he => ?_).outcome
    exact Expr.keepsData_of_servesAs h he
  · refine Params.readsMentioned fun ps ps' h t =>
      (Compiler.keptBy_updateAll (fun e he => ?_) fun e he => ?_).outcome
    · exact Expr.keepsData_of_servesAs h
        (List.mem_append_left _ (Compiler.filters_subset_exprs q he))
    · exact Expr.keepsData_of_servesAs h (List.mem_append_right _ he)
  · refine Params.readsMentioned fun ps ps' h t =>
      (Compiler.keptBy_deleteAll fun e he => ?_).outcome
    exact Expr.keepsData_of_servesAs h (Compiler.filters_subset_exprs q he)

/-- A list, a pattern, a limit and an empty run right behind four parameters, of which
the last is not mentioned. One parameter less, and the empty run is missing. -/
theorem compiled_readsMentioned_of_posts :
    let q : Query := {
      source := ⟨"posts", none⟩
      filters := [.isIn (.field 0 "author_id") (.param 0),
        .like (.field 0 "title") (.param 1) false, .not (.isIn (.field 0 "id") (.paramSlice 4 0))] }
    let page : Query := { q with limit := some (.param 2) }
    let clause : Expr := .update .increment "views" (.param 2)
    let ps : Params := [.array [.int 7], .string "a%", .int 10, .null]
    let c : Compiler := {}
    ¬ Expr.Mentioned page.exprs 3 ∧ c.compileQuery page (ps.take 3) = .error (.sliceMissing 4 4 3) ∧
      ∃ t u d,
        (c.compileQuery page ps = .ok t ∧ c.compileQuery page (ps ++ [.bool true]) = .ok t ∧
          c.compileQuery page (ps.set 3 (.bool true)) = .ok t) ∧
        (c.compileUpdateAll q ps [clause] = .ok u ∧
          c.compileUpdateAll q (ps.set 3 (.bool true) ++ [.null]) [clause] = .ok u) ∧
        c.compileDeleteAll q ps = .ok d ∧ c.compileDeleteAll q (ps ++ [.bool true]) = .ok d := by
  intro q page clause ps c
  obtain ⟨hquery, -, -⟩ := compiled_readsMentioned c page []
  obtain ⟨-, hupdate, hdelete⟩ := compiled_readsMentioned c q [clause]
  have hsame {es : List Expr} (h3 : ¬ Expr.Mentioned es 3) (i : Nat) (hi : Expr.Mentioned es i) :
      (ps.set 3 (.bool true))[i]? = ps[i]? := by
    have hne : 3 ≠ i := fun h => h3 (h ▸ hi)
    exact List.getElem?_set_ne hne
  have hpage : ¬ Expr.Mentioned page.exprs 3 := by decide
  have hclause : ¬ Expr.Mentioned (q.exprs ++ [clause]) 3 := by decide
  obtain ⟨t, ht⟩ : ∃ t, c.compileQuery page ps = .ok t := ⟨_, rfl⟩
  obtain ⟨u, hu⟩ : ∃ u, c.compileUpdateAll q ps [clause] = .ok u := ⟨_, rfl⟩
  obtain ⟨d, hd⟩ : ∃ d, c.compileDeleteAll q ps = .ok d := ⟨_, rfl⟩
  exact ⟨hpage, rfl, t, u, d,
    ⟨ht, hquery.append _ ht, hquery.change List.length_set (hsame hpage) ht⟩,
    ⟨hu, hupdate.append _ (hupdate.change List.length_set (hsame hclause) hu)⟩,
    hd, hdelete.append _ hd⟩

end DocQuery
