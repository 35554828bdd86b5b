import DocQuery.Proofs.Clauses.Operations
import DocQuery.Proofs.Hygiene.Stages

/-!
# Aggregates over a whole sequence

Where a projection aggregates and nothing is grouped, its term holds the
sequence once for each aggregate call. The reductions of the term are exactly
the calls of the projection, each over that one sequence.
-/

namespace DocQuery

def AggregateFunc.kind : AggregateFunc → Term.Kind
  | .count => .count
  | .sum => .sum
  | .avg => .avg
  | .min => .min
  | .max => .max

namespace Term

mutual

/-- The reductions in a term, from left to right, without those inside others. -/
def reductions : Term → List Term
  | .datum _ | .var _ => []
  | .makeArray items => reductionsAll items
  | .makeObject entries => reductionsEntries entries
  | .func _ body => body.reductions
  | .op kind args optargs =>
    if kind.isReduction then [.op kind args optargs]
    else reductionsAll args ++ reductionsEntries optargs

def reductionsAll : List Term → List Term
  | [] => []
  | t :: rest => t.reductions ++ reductionsAll rest

def reductionsEntries : List (String × Term) → List Term
  | [] => []
  | (_, t) :: rest => t.reductions ++ reductionsEntries rest

end

theorem reductionsAll_eq_flatMap (ts : List Term) : reductionsAll ts = ts.flatMap reductions := by
  induction ts with
  | nil => rfl
  | cons t rest ih => rw [reductionsAll, List.flatMap_cons, ih]

theorem reductionsEntries_eq_flatMap (es : List (String × Term)) :
    reductionsEntries es = (es.map (·.2)).flatMap reductions := by
  induction es with
  | nil => rfl
  | cons e rest ih => rw [reductionsEntries, List.map_cons, List.flatMap_cons, ih]

@[simp] theorem reductions_datum (v : Json) : (datum v).reductions = [] := rfl

@[simp] theorem reductions_makeArray (ts : List Term) :
    (makeArray ts).reductions = ts.flatMap reductions :=
  reductionsAll_eq_flatMap ts

@[simp] theorem reductions_makeObject (es : List (String × Term)) :
    (makeObject es).reductions = (es.map (·.2)).flatMap reductions :=
  reductionsEntries_eq_flatMap es

theorem reductions_call {kind : Kind} (h : kind.isReduction = false) (ts : List Term) :
    (call kind ts).reductions = ts.flatMap reductions := by
  simp [call, reductions, h, reductionsAll_eq_flatMap, reductionsEntries]

end Term

/-- The aggregate calls in an expression. -/
def Expr.aggregateCalls (e : Expr) : List Expr := e.parts.filter isAggregate

/-- What an aggregate call puts around a sequence of records. Whole rows of a
single relation are aggregated as they are. -/
def Operation.aggregate (width : Nat) (func : AggregateFunc) (arg : Expr) (distinct : Bool) :
    List Operation :=
  .bare func.kind :: ((if distinct then [.bare .distinct] else []) ++
    if width = 1 ∧ arg.sameAs (.entity 0) then [] else [.each .map arg (.row · width)])

namespace Expr

/-- The term is the aggregate call over these rows: its operations stand around
theirs. -/
def FoldsOver (s : Setting) (rows : Term) (width : Nat) : Expr → Term → Prop
  | .aggregate func arg distinct, t =>
    ∃ above, t.chain = above ++ rows.chain ∧
      List.Forall₂ (Operation.Runs s) (Operation.aggregate width func arg distinct) above
  | _, _ => False

/-- The terms are these calls over the rows, one term for each call and in some
order. -/
def FoldEach (s : Setting) (rows : Term) (width : Nat) (calls : List Expr) (ts : List Term) :
    Prop :=
  ∃ calls', calls'.Perm calls ∧ List.Forall₂ (FoldsOver s rows width) calls' ts

open Compile Term

variable {s : Setting} {rows t : Term} {width n k : Nat}

/-- Building adds no reduction and loses none. -/
theorem reductions_build {e : Expr} {v : Json} {ts : List Term} (hp : e.isPlain)
    (hlen : ts.length = e.operands.length) :
    (e.build v ts).reductions = ts.flatMap reductions :=
  collect_build reductions_datum reductions_makeArray reductions_makeObject
    (fun _ ts hkind => reductions_call hkind ts) hp hlen

/-! ## Calls of an expression and of its operands -/

theorem aggregateCalls_eq_nil {e : Expr} (h : e.containsAggregate = false) :
    e.aggregateCalls = [] := by
  rw [containsAggregate_eq_any_parts, List.any_eq_false] at h
  exact List.filter_eq_nil_iff.mpr h

theorem filter_partsAll (es : List Expr) :
    (partsAll es).filter isAggregate = es.flatMap aggregateCalls := by
  induction es with
  | nil => rfl
  | cons e rest ih => rw [partsAll, List.filter_append, ih, List.flatMap_cons, aggregateCalls]

theorem filter_partsEntries (entries : List (String × Expr)) :
    (partsEntries entries).filter isAggregate = (entries.map (·.2)).flatMap aggregateCalls := by
  induction entries with
  | nil => rfl
  | cons p rest ih =>
      obtain ⟨name, e⟩ := p
      rw [partsEntries, List.filter_append, ih, List.map_cons, List.flatMap_cons, aggregateCalls]

theorem IsPattern.aggregateCalls_eq_nil {engine : RegexEngine} {params : Params}
    {ignoreCase : Bool} {p : Expr} (h : p.IsPattern engine params ignoreCase) :
    p.aggregateCalls = [] := by
  cases p with
  | literal | param => rfl
  | _ => exact h.elim

/-- A membership compiles its list before its item, so the order is not that of
the parts. -/
theorem perm_aggregateCalls {e : Expr} {engine : RegexEngine} {params : Params} (hp : e.isPlain)
    (hread : e.ReadsParams engine params) :
    (e.operands.flatMap aggregateCalls).Perm e.aggregateCalls := by
  cases e with
  | field | entity | aggregate | update => exact absurd hp Bool.false_ne_true
  | literal | param | paramSlice => exact .nil
  | and es | or es | tuple es | list es => exact .of_eq (filter_partsAll es).symm
  | map entries => exact .of_eq (filter_partsEntries entries).symm
  | isIn e l =>
      by_cases hl : ∃ i, l = .param i
      · obtain ⟨i, rfl⟩ := hl
        simp [aggregateCalls, operands, parts, isAggregate]
      · rw [operands_isIn fun i hi => hl ⟨i, hi⟩]
        simpa [aggregateCalls, parts, isAggregate] using List.perm_append_comm
  | like e p ignoreCase =>
      have hpattern := IsPattern.aggregateCalls_eq_nil hread
      rw [aggregateCalls] at hpattern
      simp [aggregateCalls, operands, parts, isAggregate, hpattern]
  | _ => simp [aggregateCalls, operands, parts, isAggregate]

/-! ## Compiled calls -/

theorem chain_apply (r : Reduction) (seq : Term) :
    (r.apply seq).chain =
      (r.func.kind, []) :: ((if r.distinct then [(.distinct, [])] else []) ++ seq.chain) := by
  obtain ⟨func, distinct⟩ := r
  cases func <;> cases distinct <;> rfl

theorem reductions_apply (r : Reduction) (seq : Term) :
    (r.apply seq).reductions = [r.apply seq] := by
  obtain ⟨func, distinct⟩ := r
  cases func <;> rfl

theorem FoldsOver.apply {func : AggregateFunc} {arg : Expr} {distinct : Bool} {seq : Term}
    {above : List (Kind × List Term)} (hseq : seq.chain = above ++ rows.chain)
    (h : List.Forall₂ (Operation.Runs s)
      (if width = 1 ∧ arg.sameAs (.entity 0) then [] else [.each .map arg (.row · width)]) above) :
    (Expr.aggregate func arg distinct).FoldsOver s rows width
      (Reduction.apply ⟨func, distinct⟩ seq) := by
  refine ⟨(func.kind, []) :: ((if distinct then [(.distinct, [])] else []) ++ above), ?_, ?_⟩
  · rw [chain_apply, hseq]
    simp
  · refine .cons ⟨rfl, rfl⟩ (List.rel_append ?_ h)
    cases distinct with
    | false => exact .nil
    | true => exact .cons ⟨rfl, rfl⟩ .nil

theorem foldEach_nil : FoldEach s rows width [] [] := ⟨[], .nil, .nil⟩

theorem FoldEach.append {calls calls' : List Expr} {ts ts' : List Term}
    (h : FoldEach s rows width calls ts) (h' : FoldEach s rows width calls' ts') :
    FoldEach s rows width (calls ++ calls') (ts ++ ts') := by
  obtain ⟨order, hperm, hfold⟩ := h
  obtain ⟨order', hperm', hfold'⟩ := h'
  exact ⟨order ++ order', hperm.append hperm', List.rel_append hfold hfold'⟩

theorem FoldEach.of_perm {calls calls' : List Expr} {ts : List Term}
    (h : FoldEach s rows width calls ts) (hperm : calls.Perm calls') :
    FoldEach s rows width calls' ts := by
  obtain ⟨order, horder, hfold⟩ := h
  exact ⟨order, horder.trans hperm, hfold⟩

theorem foldEach_of_yieldsEach {f : Expr → Compile Term} {es : List Expr} {ts : List Term}
    (h : YieldsEach f es n ts k)
    (hone : ∀ e ∈ es, ∀ {t n k}, (f e).Yields n t k →
      FoldEach s rows width e.aggregateCalls t.reductions) :
    FoldEach s rows width (es.flatMap aggregateCalls) (ts.flatMap reductions) := by
  induction h with
  | nil => exact foldEach_nil
  | cons head _ ih =>
      rw [List.flatMap_cons, List.flatMap_cons]
      have hhead := hone _ List.mem_cons_self head
      exact hhead.append (ih fun e he => hone e (List.mem_cons_of_mem _ he))

/-- The reductions of an expression over a whole sequence. -/
theorem foldEach_of_yields {e : Expr}
    (h : (e.compile s.engine s.params (.total rows width)).Yields n t k) :
    FoldEach s rows width e.aggregateCalls t.reductions := by
  induction e using inductionOnOperands generalizing n t k with
  | step e ih =>
      cases yields_compile_iff.mp h with
      | key slot => cases slot
      | field _ read => cases read
      | entity _ read => cases read
      | whole _ rows_eq =>
          cases rows_eq
          have hrows : rows.chain = [] ++ rows.chain := rfl
          rw [reductions_apply]
          refine ⟨_, .refl _, .cons (.apply hrows ?_) .nil⟩
          rw [if_pos ⟨rfl, sameAs_entity_iff.mpr rfl⟩]
          exact .nil
      | @mapped func arg distinct _ _ _ _ f _ rows_eq flat not_whole func_eq =>
          cases rows_eq
          have hcalls : (Expr.aggregate func arg distinct).aggregateCalls =
              [.aggregate func arg distinct] :=
            congrArg (_ :: ·) (aggregateCalls_eq_nil flat)
          have hmap : (rows.map f).chain = [(.map, [f])] ++ rows.chain := chain_op (by decide)
          rw [hcalls, reductions_apply]
          refine ⟨_, .refl _, .cons (.apply hmap ?_) .nil⟩
          rw [if_neg fun hw => not_whole ⟨hw.1, sameAs_entity_iff.mp hw.2⟩]
          exact .cons ⟨rfl, f, ⟨n, k, func_eq⟩, rfl⟩ .nil
      | plain _ isPlain datum_eq operands_eq =>
          have hread := datum_ok_iff.mp ⟨_, datum_eq⟩
          rw [reductions_build isPlain operands_eq.length_eq]
          exact (foldEach_of_yieldsEach operands_eq ih).of_perm (perm_aggregateCalls isPlain hread)

end Expr

/-! ## Projected totals -/

namespace Pipeline

variable {e shape : Expr} {preloads : List Nat}

theorem flatMap_aggregateCalls_entities {es : List Expr} (h : ∀ e ∈ es, e.isEntity) :
    es.flatMap Expr.aggregateCalls = [] := by
  rw [List.flatMap_eq_nil_iff]
  exact fun e he => Expr.aggregateCalls_eq_nil (containsAggregate_of_isEntity (h e he))

/-- Slots move entities only, which hold no call. -/
theorem flatMap_slots (items : List Expr) (preloads : List Nat) :
    (slots items preloads).flatMap Expr.aggregateCalls = items.flatMap Expr.aggregateCalls := by
  have hothers : (items.filter (!·.isEntity)).flatMap Expr.aggregateCalls =
      items.flatMap Expr.aggregateCalls := by
    induction items with
    | nil => rfl
    | cons e rest ih =>
        rw [List.flatMap_cons, ← ih]
        by_cases he : e.isEntity = true
        · rw [List.filter_cons_of_neg (by simp [he]),
            Expr.aggregateCalls_eq_nil (containsAggregate_of_isEntity he), List.nil_append]
        · rw [List.filter_cons_of_pos (by simp [he]), List.flatMap_cons]
  have hentities : (items.filter Expr.isEntity).flatMap Expr.aggregateCalls = [] :=
    flatMap_aggregateCalls_entities fun e he => (List.mem_filter.mp he).2
  have hpreloads : (preloads.map Expr.entity).flatMap Expr.aggregateCalls = [] :=
    flatMap_aggregateCalls_entities (List.forall_mem_map.mpr fun r _ => rfl)
  rw [slots, List.flatMap_append, List.flatMap_append, hentities, hpreloads, hothers]
  rfl

theorem aggregateCalls_of_shape (h : shape? e preloads = some shape) :
    shape.aggregateCalls = e.aggregateCalls := by
  cases e with
  | entity r =>
      simp only [shape?] at h
      split_ifs at h
      cases h
      exact (Expr.filter_partsAll _).trans (flatMap_slots [.entity r] preloads)
  | list items | tuple items =>
      cases h
      exact (Expr.filter_partsAll _).trans ((flatMap_slots items preloads).trans
        (Expr.filter_partsAll items).symm)
  | _ => cases h; rfl

theorem isRowShape_of_shape (h : shape? e preloads = some shape)
    (hagg : e.containsAggregate) : isRowShape shape = isRowShape e := by
  cases e with
  | entity r => exact absurd hagg Bool.false_ne_true
  | _ => cases h; rfl

end Pipeline

end DocQuery
