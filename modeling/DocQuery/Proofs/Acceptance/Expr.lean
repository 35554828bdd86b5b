import DocQuery.Proofs.Expr.Operands

/-!
# Which expressions compile

An expression over rows has to fit the record and the parameters, and its
patterns the engine; one over groups is read from the keys where it equals one
and else has to be built from constants, keys and aggregates. Both conditions are
said here without the compiler, and `acceptedIff_compile_row` and
`acceptedIff_compile_group` tie them to it.
-/

namespace DocQuery

namespace Expr

open Compile

mutual

/-- An expression and everything below it, patterns and lists included. -/
def parts : Expr → List Expr
  | .literal l => [.literal l]
  | .param i => [.param i]
  | .paramSlice start count => [.paramSlice start count]
  | .field r name => [.field r name]
  | .entity r => [.entity r]
  | .compare op l r => .compare op l r :: (l.parts ++ r.parts)
  | .arith op l r => .arith op l r :: (l.parts ++ r.parts)
  | .and es => .and es :: partsAll es
  | .or es => .or es :: partsAll es
  | .not e => .not e :: e.parts
  | .isIn e l => .isIn e l :: (e.parts ++ l.parts)
  | .isNull e => .isNull e :: e.parts
  | .like e p ignoreCase => .like e p ignoreCase :: (e.parts ++ p.parts)
  | .aggregate func arg distinct => .aggregate func arg distinct :: arg.parts
  | .update op name v => .update op name v :: v.parts
  | .tuple es => .tuple es :: partsAll es
  | .list es => .list es :: partsAll es
  | .map entries => .map entries :: partsEntries entries

def partsAll : List Expr → List Expr
  | [] => []
  | e :: rest => e.parts ++ partsAll rest

def partsEntries : List (String × Expr) → List Expr
  | [] => []
  | (_, e) :: rest => e.parts ++ partsEntries rest

end

theorem mem_partsAll {x : Expr} {es : List Expr} :
    x ∈ partsAll es ↔ ∃ e ∈ es, x ∈ e.parts := by
  induction es with
  | nil => simp [partsAll]
  | cons e rest ih => simp [partsAll, ih]

theorem mem_partsEntries {x : Expr} {entries : List (String × Expr)} :
    x ∈ partsEntries entries ↔ ∃ e ∈ entries.map (·.2), x ∈ e.parts := by
  induction entries with
  | nil => simp [partsEntries]
  | cons p rest ih =>
      obtain ⟨k, e⟩ := p
      simp [partsEntries, ih]

theorem self_mem_parts (e : Expr) : e ∈ e.parts := by
  cases e <;> simp [parts]

theorem parts_subset_of_mem_operands {x e : Expr} (h : x ∈ e.operands) : x.parts ⊆ e.parts := by
  intro y hy
  cases e with
  | literal | param | paramSlice | field | entity => simp [operands] at h
  | and es | or es | tuple es | list es =>
      exact List.mem_cons_of_mem _ (mem_partsAll.mpr ⟨x, h, hy⟩)
  | map entries => exact List.mem_cons_of_mem _ (mem_partsEntries.mpr ⟨x, h, hy⟩)
  | isIn e l => cases l <;> grind [operands, parts]
  | _ => grind [operands, parts]

mutual

/-- What is below a part is below the whole. -/
theorem mem_parts_of_mem_parts {x y : Expr} (hy : y ∈ x.parts) :
    ∀ {e : Expr}, x ∈ e.parts → y ∈ e.parts
  | .literal _, hx | .param _, hx | .paramSlice .., hx | .field .., hx | .entity _, hx => by
      rwa [List.mem_singleton.mp hx] at hy
  | .compare .., hx | .arith .., hx | .isIn .., hx | .like .., hx => by
      rcases List.mem_cons.mp hx with heq | hx
      · rwa [heq] at hy
      · refine List.mem_cons_of_mem _ ?_
        rcases List.mem_append.mp hx with hl | hr
        · exact List.mem_append_left _ (mem_parts_of_mem_parts hy hl)
        · exact List.mem_append_right _ (mem_parts_of_mem_parts hy hr)
  | .not _, hx | .isNull _, hx | .aggregate .., hx | .update .., hx => by
      rcases List.mem_cons.mp hx with heq | hx
      · rwa [heq] at hy
      · exact List.mem_cons_of_mem _ (mem_parts_of_mem_parts hy hx)
  | .and _, hx | .or _, hx | .tuple _, hx | .list _, hx => by
      rcases List.mem_cons.mp hx with heq | hx
      · rwa [heq] at hy
      · exact List.mem_cons_of_mem _ (mem_partsAll_of_mem_parts hy hx)
  | .map _, hx => by
      rcases List.mem_cons.mp hx with heq | hx
      · rwa [heq] at hy
      · exact List.mem_cons_of_mem _ (mem_partsEntries_of_mem_parts hy hx)

theorem mem_partsAll_of_mem_parts {x y : Expr} (hy : y ∈ x.parts) :
    ∀ {es : List Expr}, x ∈ partsAll es → y ∈ partsAll es
  | _ :: _, hx => by
      rcases List.mem_append.mp hx with hx | hx
      · exact List.mem_append_left _ (mem_parts_of_mem_parts hy hx)
      · exact List.mem_append_right _ (mem_partsAll_of_mem_parts hy hx)

theorem mem_partsEntries_of_mem_parts {x y : Expr} (hy : y ∈ x.parts) :
    ∀ {entries : List (String × Expr)}, x ∈ partsEntries entries → y ∈ partsEntries entries
  | _ :: _, hx => by
      rcases List.mem_append.mp hx with hx | hx
      · exact List.mem_append_left _ (mem_parts_of_mem_parts hy hx)
      · exact List.mem_append_right _ (mem_partsEntries_of_mem_parts hy hx)

end

/-- A string, written or in a parameter, whose regular expression the engine does
not refuse. -/
def IsPattern (engine : RegexEngine) (params : Params) (ignoreCase : Bool) : Expr → Prop
  | .literal (.string s) => engine.refusal? (LikePattern.read s ignoreCase).regex = none
  | .param i => ∃ s, params[i]? = some (.string s) ∧
    engine.refusal? (LikePattern.read s ignoreCase).regex = none
  | _ => False

/-- What the expression itself takes from the parameters is there and of the
right kind, and so is a pattern. -/
def ReadsParams (engine : RegexEngine) (params : Params) : Expr → Prop
  | .param i => i < params.length
  | .paramSlice start count =>
    start + count < Params.positions ∧ start + count ≤ params.length
  | .isIn _ (.param i) => ∃ items, params[i]? = some (.array items)
  | .like _ p ignoreCase => p.IsPattern engine params ignoreCase
  | _ => True

/-- May stand in an expression over a record of `width` relations. -/
def StandsInRow (engine : RegexEngine) (params : Params) (width : Nat) : Expr → Prop
  | .field r _ | .entity r => r < width
  | .aggregate .. | .update .. => False
  | e => e.ReadsParams engine params

/-- Fits a record of `width` relations: no aggregate and no update clause occurs
in it, every relation is one of the record's, every parameter that is read is there
and of the right kind, and the engine refuses no pattern. -/
def FitsRow (engine : RegexEngine) (params : Params) (width : Nat) (e : Expr) : Prop :=
  ∀ x ∈ e.parts, x.StandsInRow engine params width

/-- Fits a group with these keys of records of `width` relations. -/
inductive FitsGroup (engine : RegexEngine) (params : Params) (keys : List Expr) (width : Nat) :
    Expr → Prop
  | key {k e : Expr} (mem : k ∈ keys) (same : k.sameAs e) : FitsGroup engine params keys width e
  | aggregate {func : AggregateFunc} {arg : Expr} {distinct : Bool}
      (fits : arg.FitsRow engine params width) :
      FitsGroup engine params keys width (.aggregate func arg distinct)
  | plain {e : Expr} (isPlain : e.isPlain) (reads : e.ReadsParams engine params)
      (operands : ∀ x ∈ e.operands, FitsGroup engine params keys width x) :
      FitsGroup engine params keys width e

/-- Stands for a count where no row is in scope. -/
inductive IsCount (params : Params) : Expr → Prop
  | literal {n : Int} (nonneg : 0 ≤ n) : IsCount params (.literal (.int n))
  | param {i : Nat} {n : Int} (value : params[i]? = some (.number (.int n)))
      (nonneg : 0 ≤ n) : IsCount params (.param i)
  | and {e : Expr} (only : IsCount params e) : IsCount params (.and [e])
  | or {e : Expr} (only : IsCount params e) : IsCount params (.or [e])

/-! ## Parameters -/

theorem value_eq_ok {params : Params} {i : Nat} {v : Json} :
    params.value i = .ok v ↔ params[i]? = some v := by
  rw [Params.value]
  cases params[i]? <;> simp

theorem slice_eq_ok {params : Params} {start count : Nat} {vs : List Json} :
    params.slice start count = .ok vs ↔
      (start + count < Params.positions ∧ start + count ≤ params.length) ∧
        vs = (params.drop start).take count := by
  simp only [Params.slice]
  split_ifs with hover hlen
  · simp [Nat.not_lt.mpr hover]
  · simp [Nat.lt_of_not_le hover, hlen, eq_comm]
  · simp [hlen]

theorem items_eq_ok {params : Params} {i : Nat} {vs : List Json} :
    params.items i = .ok vs ↔ params[i]? = some (.array vs) := by
  rw [Params.items, Params.value]
  rcases params[i]? with _ | v
  · simp [bind, Except.bind]
  · cases v <;> simp [bind, Except.bind]

theorem patternText_param_eq_ok {params : Params} {i : Nat} {s : String} :
    (param i).patternText params = .ok s ↔ params[i]? = some (.string s) := by
  rw [patternText, Params.value]
  rcases params[i]? with _ | v
  · simp [bind, Except.bind]
  · cases v <;> simp [bind, Except.bind]

theorem likePattern_eq_ok {engine : RegexEngine} {params : Params} {ignoreCase : Bool}
    {e : Expr} {p : LikePattern} : e.likePattern engine params ignoreCase = .ok p ↔
      ∃ s, e.patternText params = .ok s ∧ engine.refusal? p.regex = none ∧
        p = .read s ignoreCase := by
  simp only [← LikePattern.compile_eq_ok, likePattern]
  cases e.patternText params <;> simp [bind, Except.bind]

theorem likePattern_ok_iff {engine : RegexEngine} {params : Params} {ignoreCase : Bool}
    {e : Expr} : (∃ p, e.likePattern engine params ignoreCase = .ok p) ↔
      e.IsPattern engine params ignoreCase := by
  have htext : (∃ p, e.likePattern engine params ignoreCase = .ok p) ↔
      ∃ s, e.patternText params = .ok s ∧
        engine.refusal? (LikePattern.read s ignoreCase).regex = none := by
    simp only [likePattern_eq_ok]
    constructor
    · rintro ⟨_, s, hs, htaken, rfl⟩
      exact ⟨s, hs, htaken⟩
    · rintro ⟨s, hs, htaken⟩
      exact ⟨_, s, hs, htaken, rfl⟩
  rw [htext]
  cases e with
  | literal l => cases l <;> simp [patternText, IsPattern]
  | param i => simp only [patternText_param_eq_ok, IsPattern]
  | _ => simp [patternText, IsPattern]

theorem exists_of_map_ok {α β : Type} {x : Except Rejection α} {g : α → β} {b : β}
    (h : x.map g = .ok b) : ∃ a, x = .ok a ∧ b = g a := by
  cases x with
  | error r => cases h
  | ok a =>
      cases h
      exact ⟨a, rfl, rfl⟩

theorem map_ok_iff {α β : Type} {x : Except Rejection α} {g : α → β} :
    (∃ b, x.map g = .ok b) ↔ ∃ a, x = .ok a := by
  cases x <;> simp [Except.map]

theorem datum_ok_iff {engine : RegexEngine} {params : Params} {e : Expr} :
    (∃ v, e.datum engine params = .ok v) ↔ e.ReadsParams engine params := by
  cases e with
  | param i =>
      simp only [datum, ReadsParams, value_eq_ok]
      rw [← Option.isSome_iff_exists]
      simp
  | paramSlice start count => simp [datum, ReadsParams, map_ok_iff, slice_eq_ok]
  | isIn e l => cases l <;> simp [datum, ReadsParams, map_ok_iff, items_eq_ok]
  | like e p ignoreCase => simp [datum, ReadsParams, map_ok_iff, likePattern_ok_iff]
  | _ => simp [datum, ReadsParams]

/-! ## Over rows -/

mutual

/-- An aggregate call stands in the tree exactly when one is among its parts. -/
theorem containsAggregate_eq_any_parts :
    ∀ e : Expr, e.containsAggregate = e.parts.any isAggregate
  | .literal _ | .param _ | .paramSlice .. | .field .. | .entity _ => rfl
  | .aggregate .. => rfl
  | .compare _ l r | .arith _ l r | .isIn l r | .like l r _ => by
      simp [containsAggregate, parts, isAggregate, containsAggregate_eq_any_parts l,
        containsAggregate_eq_any_parts r]
  | .and es | .or es | .tuple es | .list es => by
      simp [containsAggregate, parts, isAggregate, anyAggregate_eq_any_partsAll es]
  | .not e | .isNull e | .update _ _ e => by
      simp [containsAggregate, parts, isAggregate, containsAggregate_eq_any_parts e]
  | .map entries => by
      simp [containsAggregate, parts, isAggregate, anyEntryAggregate_eq_any_partsEntries entries]

theorem anyAggregate_eq_any_partsAll :
    ∀ es : List Expr, anyAggregate es = (partsAll es).any isAggregate
  | [] => rfl
  | e :: rest => by
      rw [anyAggregate, partsAll, List.any_append, containsAggregate_eq_any_parts e,
        anyAggregate_eq_any_partsAll rest]

theorem anyEntryAggregate_eq_any_partsEntries :
    ∀ entries : List (String × Expr),
      anyEntryAggregate entries = (partsEntries entries).any isAggregate
  | [] => rfl
  | (_, e) :: rest => by
      rw [anyEntryAggregate, partsEntries, List.any_append, containsAggregate_eq_any_parts e,
        anyEntryAggregate_eq_any_partsEntries rest]

end

theorem containsAggregate_eq_false_of_mem_operands {x e : Expr} (h : x ∈ e.operands)
    (he : e.containsAggregate = false) : x.containsAggregate = false := by
  rw [containsAggregate_eq_any_parts, List.any_eq_false] at he ⊢
  exact fun y hy => he y (parts_subset_of_mem_operands h hy)

theorem FitsRow.containsAggregate_eq_false {engine : RegexEngine} {params : Params} {width : Nat}
    {e : Expr} (h : e.FitsRow engine params width) : e.containsAggregate = false := by
  rw [containsAggregate_eq_any_parts, List.any_eq_false]
  intro x hx
  have hs := h x hx
  cases x <;> simp_all [StandsInRow, isAggregate]

theorem IsPattern.fitsRow {engine : RegexEngine} {params : Params} {ignoreCase : Bool}
    {width : Nat} {p : Expr} (h : p.IsPattern engine params ignoreCase) :
    p.FitsRow engine params width := by
  cases p with
  | literal l => simp [FitsRow, parts, StandsInRow, ReadsParams]
  | param i =>
      obtain ⟨s, hs, -⟩ := h
      obtain ⟨hi, -⟩ := List.getElem?_eq_some_iff.mp hs
      simpa [FitsRow, parts, StandsInRow, ReadsParams] using hi
  | _ => exact h.elim

/-- Fitting a row, one level at a time. -/
theorem fitsRow_iff {engine : RegexEngine} {params : Params} {width : Nat} {e : Expr} :
    e.FitsRow engine params width ↔
      e.StandsInRow engine params width ∧ ∀ x ∈ e.operands, x.FitsRow engine params width := by
  cases e with
  | and es | or es | tuple es | list es =>
      simp only [FitsRow, parts, operands, List.forall_mem_cons, mem_partsAll]
      grind
  | map entries =>
      simp only [FitsRow, parts, operands, List.forall_mem_cons, mem_partsEntries]
      grind
  | isIn e l =>
      by_cases hl : ∃ i, l = .param i
      · obtain ⟨i, rfl⟩ := hl
        have hparam (h : (isIn e (.param i)).StandsInRow engine params width) :
            (Expr.param i).FitsRow engine params width := by
          obtain ⟨items, hi⟩ := h
          simpa [FitsRow, parts, StandsInRow, ReadsParams] using
            (List.getElem?_eq_some_iff.mp hi).1
        simp only [FitsRow, operands, List.forall_mem_singleton]
        rw [parts, List.forall_mem_cons, List.forall_mem_append]
        exact and_congr_right fun h => and_iff_left (hparam h)
      · -- any other list is compiled, and before the item
        have hl' : ∀ i, l ≠ .param i := fun i h => hl ⟨i, h⟩
        rw [operands_isIn hl', List.forall_mem_cons, List.forall_mem_singleton]
        simp only [FitsRow]
        rw [parts, List.forall_mem_cons, List.forall_mem_append]
        exact and_congr_right fun _ => and_comm
  | like e p ignoreCase =>
      simp only [FitsRow, operands, List.forall_mem_singleton]
      rw [parts, List.forall_mem_cons, List.forall_mem_append]
      exact and_congr_right fun hp => and_iff_left (IsPattern.fitsRow hp)
  | _ => simp [FitsRow, parts, operands, StandsInRow] <;> grind

end Expr

namespace Scope

/-- The number of relations in sight where fields are read from rows. -/
def rowWidth? : Scope → Option Nat
  | .row _ width => some width
  | .pair _ width _ => some (width + 1)
  | _ => none

/-- The keys where fields are read from groups; a whole sequence has none. -/
def groupKeys? : Scope → Option (List Expr)
  | .bucket _ keys _ => some keys
  | .total .. => some []
  | _ => none

theorem slot_eq_ok_iff {record t : Term} {width r : Nat} :
    slot record width r = .ok t ↔ r < width ∧ t = if width = 1 then record else record.nth r := by
  by_cases hr : width ≤ r
  · simp [slot, hr, Nat.not_lt.mpr hr]
  · simp only [slot, if_neg hr, Nat.lt_of_not_le hr, true_and]
    split_ifs
    · rw [Except.ok.injEq, eq_comm]
    · rw [Except.ok.injEq, eq_comm]

theorem slot_ok_iff {record : Term} {width r : Nat} :
    (∃ t, slot record width r = .ok t) ↔ r < width := by
  simp [slot_eq_ok_iff]

variable {scope : Scope}

theorem document_ok_iff {w r : Nat} (h : scope.rowWidth? = some w) :
    (∃ t, scope.document r = .ok t) ↔ r < w := by
  cases scope with
  | row record width =>
      obtain rfl : width = w := by simpa [rowWidth?] using h
      exact slot_ok_iff
  | pair left width right =>
      obtain rfl : width + 1 = w := by simpa [rowWidth?] using h
      rw [document]
      split_ifs with hr
      · simp [hr]
      · rw [slot_ok_iff]
        omega
  | _ => simp [rowWidth?] at h

/-- Where documents are read, a field is one of theirs. -/
theorem field_eq_ok_iff {w r : Nat} {name : String} {t : Term} (h : scope.rowWidth? = some w) :
    scope.field r name = .ok t ↔ ∃ d, scope.document r = .ok d ∧ t = d.bracket name := by
  cases scope with
  | row record width | pair left width right =>
      simp only [field]
      cases document r _ <;> simp [bind, Except.bind, pure, Except.pure, eq_comm]
  | _ => simp [rowWidth?] at h

theorem field_ok_iff {w r : Nat} {name : String} (h : scope.rowWidth? = some w) :
    (∃ t, scope.field r name = .ok t) ↔ r < w := by
  rw [← document_ok_iff h]
  simp only [field_eq_ok_iff h]
  exact ⟨fun ⟨_, d, hd, _⟩ => ⟨d, hd⟩, fun ⟨d, hd⟩ => ⟨_, d, hd, rfl⟩⟩

theorem keySlot?_of_rowWidth {w : Nat} (h : scope.rowWidth? = some w) (e : Expr) :
    scope.keySlot? e = none := by
  cases scope <;> simp [rowWidth?, keySlot?] at h ⊢

theorem rows?_of_rowWidth {w : Nat} (h : scope.rowWidth? = some w) : scope.rows? = none := by
  cases scope <;> simp [rowWidth?, rows?] at h ⊢

/-- A key slot is there exactly for what equals a key. -/
theorem keySlot?_ok_iff {keys : List Expr} (h : scope.groupKeys? = some keys) {e : Expr} :
    (∃ t, scope.keySlot? e = some t) ↔ ∃ k ∈ keys, k.sameAs e = true := by
  cases scope with
  | bucket group keys' width =>
      obtain rfl : keys' = keys := by simpa [groupKeys?] using h
      rw [← Option.isSome_iff_exists, keySlot?, Option.isSome_map, List.findIdx?_isSome]
      simp
  | total rows width =>
      obtain rfl : [] = keys := by simpa [groupKeys?] using h
      simp [keySlot?]
  | _ => simp [groupKeys?] at h

theorem keySlot?_bucket_eq_none {group : Term} {keys : List Expr} {width : Nat} {e : Expr}
    (h : ∀ key ∈ keys, key.sameAs e = false) :
    (Scope.bucket group keys width).keySlot? e = none := by
  rw [keySlot?, List.findIdx?_eq_none_iff.mpr h, Option.map_none]

theorem document_of_groupKeys {keys : List Expr} (h : scope.groupKeys? = some keys) (r : Nat) :
    scope.document r = .error (.ungroupedRow r) := by
  cases scope <;> simp [groupKeys?, document] at h ⊢

theorem field_of_groupKeys {keys : List Expr} (h : scope.groupKeys? = some keys) (r : Nat)
    (name : String) : scope.field r name = .error (.ungroupedField r name) := by
  cases scope <;> simp [groupKeys?, field] at h ⊢

end Scope

namespace Expr

open Compile

variable {engine : RegexEngine} {params : Params} {scope : Scope}

/-- A plain expression compiles when its own parameters are there and its
operands compile. -/
theorem acceptedIff_compile_of_isPlain {e : Expr} {P : Expr → Prop} (hp : e.isPlain)
    (hk : scope.keySlot? e = none)
    (ih : ∀ x ∈ e.operands, (x.compile engine params scope).AcceptedIff (P x)) :
    (e.compile engine params scope).AcceptedIff
      (e.ReadsParams engine params ∧ ∀ x ∈ e.operands, P x) := by
  rw [compile_of_isPlain hp hk]
  have hdatum : (liftM (e.datum engine params) : Compile Json).AcceptedIff
      (e.ReadsParams engine params) := (acceptedIff_lift _).congr datum_ok_iff
  exact hdatum.bind fun v _ _ _ => (AcceptedIff.mapM ih).bind_pure

theorem standsInRow_of_isPlain {e : Expr} {width : Nat} (hp : e.isPlain) :
    e.StandsInRow engine params width ↔ e.ReadsParams engine params := by
  cases e <;> simp [isPlain, StandsInRow] at hp ⊢

theorem acceptedIff_compile_row {w : Nat} (hw : scope.rowWidth? = some w) (e : Expr) :
    (e.compile engine params scope).AcceptedIff (e.FitsRow engine params w) := by
  induction e using inductionOnOperands with
  | step e ih =>
      have hk := Scope.keySlot?_of_rowWidth hw e
      refine AcceptedIff.congr ?_ fitsRow_iff.symm
      cases e with
      | field r name =>
          rw [compile.eq_def, hk]
          refine (acceptedIff_lift _).congr ?_
          simp [Scope.field_ok_iff hw, StandsInRow, operands]
      | entity r =>
          rw [compile.eq_def, hk]
          refine (acceptedIff_lift _).congr ?_
          simp [Scope.document_ok_iff hw, StandsInRow, operands]
      | update op name v =>
          rw [compile.eq_def, hk]
          exact (acceptedIff_throw _).congr (by simp [StandsInRow])
      | aggregate func arg distinct =>
          rw [compile_aggregate_of_noRows hk (Scope.rows?_of_rowWidth hw)]
          exact (acceptedIff_throw _).congr (by simp [StandsInRow])
      | _ =>
          rw [standsInRow_of_isPlain rfl]
          exact acceptedIff_compile_of_isPlain rfl hk ih

/-- The argument of an aggregate is judged on one row, also where no function is
needed. -/
theorem acceptedIff_aggregate (arg : Expr) (width : Nat) (r : Rejection) (whole : Term)
    (mapped : Term → Term) :
    (if arg.containsAggregate then throw r
      else if width = 1 ∧ arg.sameAs (.entity 0) then pure whole
      else do
        let f ← lambda fun row => arg.compile engine params (.row row width)
        return mapped f : Compile Term).AcceptedIff (arg.FitsRow engine params width) := by
  split_ifs with hagg hwhole
  · refine (acceptedIff_throw _).congr (iff_of_false id fun hfits => ?_)
    rw [hfits.containsAggregate_eq_false] at hagg
    exact absurd hagg Bool.false_ne_true
  · obtain ⟨rfl, hsame⟩ := hwhole
    obtain rfl := sameAs_entity_iff.mp hsame
    exact (acceptedIff_pure _).congr (by simp [FitsRow, parts, StandsInRow])
  · exact (AcceptedIff.lambda fun row => acceptedIff_compile_row rfl arg).bind_pure

theorem fitsGroup_aggregate_iff {keys : List Expr} {width : Nat} {func : AggregateFunc}
    {arg : Expr} {distinct : Bool}
    (h : ¬ ∃ k ∈ keys, k.sameAs (.aggregate func arg distinct) = true) :
    FitsGroup engine params keys width (.aggregate func arg distinct) ↔
      arg.FitsRow engine params width := by
  constructor
  · intro hfits
    cases hfits with
    | key mem same => exact absurd ⟨_, mem, same⟩ h
    | aggregate fits => exact fits
    | plain isPlain => exact absurd isPlain Bool.false_ne_true
  · exact .aggregate

theorem fitsGroup_iff_of_noKey {keys : List Expr} {width : Nat} {e : Expr}
    (h : ¬ ∃ k ∈ keys, k.sameAs e = true) (hagg : e.isAggregate = false) :
    e.FitsGroup engine params keys width ↔
      e.isPlain ∧ e.ReadsParams engine params ∧
        ∀ x ∈ e.operands, x.FitsGroup engine params keys width := by
  constructor
  · intro hfits
    cases hfits with
    | key mem same => exact absurd ⟨_, mem, same⟩ h
    | aggregate fits => exact absurd hagg.symm Bool.false_ne_true
    | plain isPlain reads operands => exact ⟨isPlain, reads, operands⟩
  · rintro ⟨isPlain, reads, operands⟩
    exact .plain isPlain reads operands

theorem acceptedIff_compile_group {keys : List Expr} {rows : Term} {width : Nat}
    (hkeys : scope.groupKeys? = some keys) (hrows : scope.rows? = some (rows, width)) (e : Expr) :
    (e.compile engine params scope).AcceptedIff (e.FitsGroup engine params keys width) := by
  induction e using inductionOnOperands with
  | step e ih =>
      rcases hk : scope.keySlot? e with _ | slot
      · have hnone : ¬ ∃ k ∈ keys, k.sameAs e = true := by
          rw [← Scope.keySlot?_ok_iff hkeys, hk]
          simp
        -- no key equals `e`: what is left to fit as is an aggregate or an operation
        cases e with
        | field r name =>
            rw [compile.eq_def, hk]
            simp only [Scope.field_of_groupKeys hkeys, fitsGroup_iff_of_noKey hnone rfl]
            exact (acceptedIff_lift _).congr (by simp [isPlain])
        | entity r =>
            rw [compile.eq_def, hk]
            simp only [Scope.document_of_groupKeys hkeys, fitsGroup_iff_of_noKey hnone rfl]
            exact (acceptedIff_lift _).congr (by simp [isPlain])
        | update op name v =>
            rw [compile.eq_def, hk, fitsGroup_iff_of_noKey hnone rfl]
            exact (acceptedIff_throw _).congr (by simp [isPlain])
        | aggregate func arg distinct =>
            rw [compile_aggregate hk hrows, fitsGroup_aggregate_iff hnone]
            exact acceptedIff_aggregate arg _ _ _ fun f => Reduction.apply _ (rows.map f)
        | _ =>
            rw [fitsGroup_iff_of_noKey hnone rfl]
            exact (acceptedIff_compile_of_isPlain rfl hk ih).congr (by simp [isPlain])
      · rw [compile_of_keySlot hk]
        obtain ⟨k, mem, same⟩ := (Scope.keySlot?_ok_iff hkeys).mp ⟨slot, hk⟩
        exact (acceptedIff_pure _).congr (iff_of_true trivial (.key mem same))

/-! ## Counts -/

theorem IsCount.yields {e : Expr} (h : e.IsCount params) (n : Nat) :
    ∃ m : Number, (e.compile engine params .empty).Yields n (.datum (.number m)) n ∧ m.isCount := by
  induction h with
  | @literal i nonneg =>
      refine ⟨.int i, ?_, by simpa [Number.isCount] using nonneg⟩
      exact (yields_compile_of_isPlain rfl rfl).mpr ⟨_, [], rfl, .nil, rfl⟩
  | @param i j value nonneg =>
      refine ⟨.int j, ?_, by simpa [Number.isCount] using nonneg⟩
      exact (yields_compile_of_isPlain rfl rfl).mpr ⟨_, [], value_eq_ok.mpr value, .nil, rfl⟩
  | and _ ih | or _ ih =>
      obtain ⟨m, hm, hcount⟩ := ih
      refine ⟨m, ?_, hcount⟩
      exact (yields_compile_of_isPlain rfl rfl).mpr ⟨_, [_], rfl, .cons hm .nil, rfl⟩

/-- A connective is a datum with a number only by standing for its one term. -/
theorem eq_singleton_of_connective {combine : List Term → Term} {neutral : Bool}
    (hcombine : ∀ ts v, combine ts ≠ .datum v) {ts : List Term} {m : Number}
    (h : connective combine neutral ts = .datum (.number m)) : ts = [.datum (.number m)] := by
  match ts with
  | [] => cases h
  | [t] => exact congrArg (fun u => [u]) h
  | t :: u :: rest => exact absurd h (hcombine _ _)

theorem isCount_of_yields {e : Expr} {n k : Nat} {m : Number}
    (h : (e.compile engine params .empty).Yields n (.datum (.number m)) k) (hm : m.isCount) :
    e.IsCount params := by
  induction e using inductionOnOperands generalizing n k with
  | step e ih =>
      -- no term but a datum is left to come from the empty scope
      generalize ht : Term.datum (.number m) = t at h
      cases yields_compile_iff.mp h with
      | key slot => simp [Scope.keySlot?] at slot
      | field noKey read =>
          simp only [Scope.field] at read
          split_ifs at read
          cases read
          cases ht
      | entity noKey read => simp [Scope.document] at read
      | whole noKey rows_eq => simp [Scope.rows?] at rows_eq
      | mapped noKey rows_eq => simp [Scope.rows?] at rows_eq
      | @plain _ _ _ v ts noKey isPlain datum_eq operands_eq =>
          cases e with
          | field | entity | aggregate | update => simp [Expr.isPlain] at isPlain
          | literal l =>
              obtain rfl : l.value = v := by simpa [datum] using datum_eq
              obtain hl : l.value = .number m := by simpa [build] using ht.symm
              cases l with
              | int i =>
                  cases hl
                  exact .literal (by simpa [Number.isCount] using hm)
              | float x =>
                  simp only [Literal.value] at hl
                  split_ifs at hl
                  cases hl
                  simp [Number.isCount] at hm
              | _ => cases hl
          | param i =>
              obtain rfl : v = .number m := by simpa [build] using ht.symm
              cases m with
              | int j =>
                  exact .param (value_eq_ok.mp datum_eq) (by simpa [Number.isCount] using hm)
              | float x => simp [Number.isCount] at hm
          | paramSlice start count =>
              obtain rfl : v = .number m := by simpa [build] using ht.symm
              simp only [datum] at datum_eq
              cases hs : params.slice start count <;> simp [hs, Except.map] at datum_eq
          -- a connective of one operand is that operand, so a count may stand in it
          | and es =>
              obtain rfl := eq_singleton_of_connective (by simp [Term.and, Term.call]) ht.symm
              obtain ⟨x, rfl, hx⟩ := yieldsEach_eq_singleton.mp operands_eq
              exact .and (ih x (List.mem_singleton_self x) hx)
          | or es =>
              obtain rfl := eq_singleton_of_connective (by simp [Term.or, Term.call]) ht.symm
              obtain ⟨x, rfl, hx⟩ := yieldsEach_eq_singleton.mp operands_eq
              exact .or (ih x (List.mem_singleton_self x) hx)
          | compare | arith =>
              obtain ⟨l, r, rfl⟩ := List.length_eq_two.mp operands_eq.length_eq
              cases ht
          | not | isNull | like =>
              obtain ⟨x, rfl⟩ := List.length_eq_one_iff.mp operands_eq.length_eq
              cases ht
          | isIn e l =>
              rcases eq_of_length_isIn operands_eq.length_eq with ⟨x, rfl⟩ | ⟨x, y, rfl⟩
              · cases ht
              · cases ht
          | tuple | list | map => cases ht

theorem acceptedIff_compileCount (clause : String) (e : Expr) :
    (e.compileCount engine params clause).AcceptedIff (e.IsCount params) := by
  intro n
  simp only [yields_compileCount]
  constructor
  · rintro ⟨t, k, m, hm, hcount, -⟩
    exact isCount_of_yields hm hcount
  · intro h
    obtain ⟨m, hm, hcount⟩ := h.yields n
    exact ⟨_, n, m, hm, hcount, rfl⟩

end Expr

end DocQuery
