import DocQuery.Expr.Compile
import DocQuery.Proofs.Run
import Mathlib.Data.List.Basic
import Mathlib.Tactic.SplitIfs

/-!
# Compilation by operands

Most expressions compile in one way: a datum is read off the parameters, the
operands are compiled in order, and one operation is built from both. What is
left are reads of the row, aggregates and update clauses. `compile_of_isPlain`
states the common way once; `Compiled` lists everything a successful
compilation can do.
-/

namespace DocQuery

/-- Folds a sequence into one value. -/
def Term.Kind.isReduction : Term.Kind → Bool
  | .count | .sum | .avg | .min | .max => true
  | _ => false

namespace Expr

open Compile

/-- The subexpressions that are compiled, in order. A pattern, and a parameter
that is used as a list, are read and not compiled. -/
def operands : Expr → List Expr
  | .literal _ | .param _ | .paramSlice .. | .field .. | .entity _ => []
  | .compare _ l r | .arith _ l r => [l, r]
  | .and es | .or es | .tuple es | .list es => es
  | .not e | .isNull e => [e]
  | .isIn e (.param _) => [e]
  | .isIn e l => [l, e]
  | .like e _ _ => [e]
  | .aggregate _ arg _ => [arg]
  | .update _ _ v => [v]
  | .map entries => entries.map (·.2)

/-- Reads no row and is no aggregate or update clause. -/
def isPlain : Expr → Bool
  | .field .. | .entity _ | .aggregate .. | .update .. => false
  | _ => true

/-- What a plain expression takes from the parameters; `null` if it takes
nothing. -/
def datum (engine : RegexEngine) (params : Params) : Expr → Except Rejection Json
  | .literal l => .ok l.value
  | .param i => params.value i
  | .paramSlice start count => (params.slice start count).map .array
  | .isIn _ (.param i) => (params.items i).map .array
  | .like _ p ignoreCase =>
    (p.likePattern engine params ignoreCase).map fun pattern => .string pattern.regex
  | _ => .ok .null

/-- The term of a plain expression over its datum and the terms of its
operands. -/
def build : Expr → Json → List Term → Term
  | .literal _, v, _ | .param _, v, _ | .paramSlice .., v, _ => .datum v
  | .compare op _ _, _, [l, r] => .binary op.kind l r
  | .arith op _ _, _, [l, r] => .binary op.kind l r
  | .and _, _, ts => connective .and true ts
  | .or _, _, ts => connective .or false ts
  | .not _, _, [t] => t.not
  | .isIn .., v, [t] => (Term.datum v).contains t
  | .isIn .., _, [l, t] => l.contains t
  | .isNull _, _, [t] => .binary .eq t (.datum .null)
  | .like .., v, [t] => .call .matchRegex [t, .datum v]
  | .tuple _, _, ts | .list _, _, ts => .makeArray ts
  | .map entries, _, ts => .makeObject ((entries.map (·.1)).zip ts)
  | _, v, _ => .datum v

theorem sizeOf_lt_of_mem_operands {x e : Expr} (h : x ∈ e.operands) : sizeOf x < sizeOf e := by
  cases e with
  | and es | or es | tuple es | list es =>
      have hx : sizeOf x < sizeOf es := List.sizeOf_lt_of_mem h
      simp only [and.sizeOf_spec, or.sizeOf_spec, tuple.sizeOf_spec, list.sizeOf_spec]
      omega
  | map entries =>
      obtain ⟨p, hp, rfl⟩ := List.mem_map.mp h
      have hlt : sizeOf p < sizeOf entries := List.sizeOf_lt_of_mem hp
      obtain ⟨k, v⟩ := p
      simp only [Prod.mk.sizeOf_spec, map.sizeOf_spec] at hlt ⊢
      omega
  | literal | param | paramSlice | field | entity => simp [operands] at h
  | isIn e l =>
      cases l <;> simp only [operands, List.mem_cons, List.not_mem_nil, or_false] at h <;>
        grind
  | _ =>
      simp only [operands, List.mem_cons, List.not_mem_nil, or_false] at h
      grind

theorem operands_isIn {e l : Expr} (h : ∀ i, l ≠ .param i) : (isIn e l).operands = [l, e] := by
  cases l with
  | param i => exact absurd rfl (h i)
  | _ => rfl

/-- The list of a membership is read off a parameter or compiled before the item. -/
theorem eq_of_length_isIn {α : Type} {e l : Expr} {ts : List α}
    (h : ts.length = (isIn e l).operands.length) : (∃ t, ts = [t]) ∨ ∃ t u, ts = [t, u] := by
  by_cases hl : ∃ i, l = .param i
  · obtain ⟨i, rfl⟩ := hl
    exact Or.inl (List.length_eq_one_iff.mp h)
  · rw [operands_isIn fun i hi => hl ⟨i, hi⟩] at h
    exact Or.inr (List.length_eq_two.mp h)

/-- Induction over the operands of an expression. -/
@[elab_as_elim]
theorem inductionOnOperands {motive : Expr → Prop}
    (step : ∀ e, (∀ x ∈ e.operands, motive x) → motive e) (e : Expr) : motive e :=
  step e fun x _ => inductionOnOperands step x
termination_by sizeOf e
decreasing_by exact sizeOf_lt_of_mem_operands ‹_›

section

variable {α : Type} {φ : Term → List α}

theorem collect_connective {kind : Term.Kind}
    (hcall : ∀ ts, φ (.call kind ts) = ts.flatMap φ) (hdatum : ∀ v, φ (.datum v) = [])
    (neutral : Bool) (ts : List Term) :
    φ (connective (.call kind) neutral ts) = ts.flatMap φ := by
  match ts with
  | [] => exact hdatum _
  | [t] => exact (List.flatMap_singleton φ t).symm
  | t :: u :: rest => exact hcall _

/-- Building adds nothing to what is collected from the operands and loses
nothing of it, if all but reductions pass on what their arguments hold. -/
theorem collect_build (hdatum : ∀ v, φ (.datum v) = [])
    (harray : ∀ ts, φ (.makeArray ts) = ts.flatMap φ)
    (hobject : ∀ es, φ (.makeObject es) = (es.map (·.2)).flatMap φ)
    (hcall : ∀ kind ts, kind.isReduction = false → φ (.call kind ts) = ts.flatMap φ)
    {e : Expr} {v : Json} {ts : List Term} (hp : e.isPlain)
    (hlen : ts.length = e.operands.length) : φ (e.build v ts) = ts.flatMap φ := by
  cases e with
  | field | entity | aggregate | update => exact absurd hp Bool.false_ne_true
  | literal | param | paramSlice =>
      obtain rfl := List.length_eq_zero_iff.mp hlen
      exact hdatum v
  | compare op =>
      obtain ⟨l, r, rfl⟩ := List.length_eq_two.mp hlen
      exact hcall _ _ (by cases op <;> rfl)
  | arith op =>
      obtain ⟨l, r, rfl⟩ := List.length_eq_two.mp hlen
      exact hcall _ _ (by cases op <;> rfl)
  | and | or => exact collect_connective (fun ts => hcall _ ts rfl) hdatum _ ts
  | not =>
      obtain ⟨t, rfl⟩ := List.length_eq_one_iff.mp hlen
      exact hcall _ _ rfl
  | isNull | like =>
      obtain ⟨t, rfl⟩ := List.length_eq_one_iff.mp hlen
      exact (hcall _ _ rfl).trans (by simp [hdatum])
  | isIn e l =>
      rcases eq_of_length_isIn hlen with ⟨t, rfl⟩ | ⟨t, u, rfl⟩
      · exact (hcall _ _ rfl).trans (by simp [hdatum])
      · exact hcall _ _ rfl
  | tuple | list => exact harray ts
  | map entries =>
      have hkeys : ts.length = (entries.map (·.1)).length := by
        rw [hlen, operands, List.length_map, List.length_map]
      rw [build, hobject, List.map_snd_zip (Nat.le_of_eq hkeys)]

end

section

variable {engine : RegexEngine} {params : Params} {scope : Scope}

theorem compile_of_keySlot {e : Expr} {slot : Term} (h : scope.keySlot? e = some slot) :
    e.compile engine params scope = pure slot := by
  rw [compile.eq_def, h]

theorem compileAll_eq_mapM (es : List Expr) :
    compileAll engine params scope es = es.mapM (compile engine params scope) := by
  induction es with
  | nil => rfl
  | cons e rest ih => rw [compileAll, List.mapM_cons, ih]

theorem compileEntries_eq_mapM (entries : List (String × Expr)) :
    compileEntries engine params scope entries = do
      let ts ← (entries.map (·.2)).mapM (compile engine params scope)
      return (entries.map (·.1)).zip ts := by
  induction entries with
  | nil => rfl
  | cons p rest ih =>
      obtain ⟨k, e⟩ := p
      rw [compileEntries, ih]
      simp [List.mapM_cons]

theorem lift_ok_bind {α β : Type} (a : α) (f : α → Compile β) :
    ((liftM (Except.ok a : Except Rejection α) : Compile α) >>= f) = f a := rfl

theorem lift_map_bind {α β γ : Type} (x : Except Rejection α) (g : α → β) (f : β → Compile γ) :
    ((liftM (x.map g) : Compile β) >>= f) = (liftM x : Compile α) >>= fun a => f (g a) := by
  cases x <;> rfl

/-- The one way in which plain expressions compile. -/
theorem compile_of_isPlain {e : Expr} (hp : e.isPlain) (hk : scope.keySlot? e = none) :
    e.compile engine params scope = (do
      let v ← (liftM (e.datum engine params) : Compile Json)
      let ts ← e.operands.mapM (compile engine params scope)
      return e.build v ts) := by
  rw [compile.eq_def, hk]
  cases e with
  | field | entity | aggregate | update => simp [isPlain] at hp
  | literal | param => rfl
  | and es | or es | tuple es | list es =>
      simp only [datum, operands, build, lift_ok_bind, compileAll_eq_mapM]
  | map entries =>
      simp only [datum, operands, build, lift_ok_bind, compileEntries_eq_mapM, bind_assoc,
        pure_bind]
  | isIn e l =>
      cases l <;> simp only [datum, operands, build, lift_ok_bind, lift_map_bind,
        List.mapM_cons, List.mapM_nil, bind_assoc, pure_bind]
  | paramSlice | compare | arith | not | isNull =>
      simp only [datum, operands, build, lift_ok_bind, lift_map_bind, List.mapM_cons,
        List.mapM_nil, bind_assoc, pure_bind]
  | like e p ignoreCase =>
      simp only [datum, operands, build, lift_map_bind, List.mapM_cons, List.mapM_nil,
        bind_assoc, pure_bind]
      rfl

theorem sameAs_entity_iff {e : Expr} {r : Nat} : e.sameAs (.entity r) = true ↔ e = .entity r := by
  cases e <;> simp [sameAs]

theorem getElem?_of_allSame {as bs : List Expr} (h : allSame as bs = true) {i r : Nat}
    (hi : bs[i]? = some (.entity r)) : as[i]? = some (.entity r) := by
  induction as generalizing bs i with
  | nil =>
      cases bs with
      | nil => simp at hi
      | cons b bs => simp [allSame] at h
  | cons a as ih =>
      cases bs with
      | nil => simp at hi
      | cons b bs =>
          rw [allSame, Bool.and_eq_true] at h
          cases i with
          | zero =>
              obtain rfl := Option.some.inj hi
              exact congrArg some (sameAs_entity_iff.mp h.1)
          | succ i => exact ih h.2 hi

variable (engine params scope) in
/-- Everything that a successful compilation can do: the expression, the next
free number before, the term, the next free number after. -/
inductive Compiled : Expr → Nat → Term → Nat → Prop
  /-- Equal to a group key: read from the key. -/
  | key {e : Expr} {n : Nat} {t : Term} (slot : scope.keySlot? e = some t) : Compiled e n t n
  | field {r n : Nat} {name : String} {t : Term} (noKey : scope.keySlot? (.field r name) = none)
      (read : scope.field r name = .ok t) : Compiled (.field r name) n t n
  | entity {r n : Nat} {t : Term} (noKey : scope.keySlot? (.entity r) = none)
      (read : scope.document r = .ok t) : Compiled (.entity r) n t n
  /-- An aggregate of whole single rows maps nothing. -/
  | whole {func : AggregateFunc} {distinct : Bool} {n : Nat} {rows : Term}
      (noKey : scope.keySlot? (.aggregate func (.entity 0) distinct) = none)
      (rows_eq : scope.rows? = some (rows, 1)) :
      Compiled (.aggregate func (.entity 0) distinct) n
        (Reduction.apply ⟨func, distinct⟩ rows) n
  | mapped {func : AggregateFunc} {arg : Expr} {distinct : Bool} {n k width : Nat}
      {rows f : Term} (noKey : scope.keySlot? (.aggregate func arg distinct) = none)
      (rows_eq : scope.rows? = some (rows, width)) (flat : arg.containsAggregate = false)
      (not_whole : ¬ (width = 1 ∧ arg = .entity 0))
      (func_eq : (lambda fun row => arg.compile engine params (.row row width)).Yields n f k) :
      Compiled (.aggregate func arg distinct) n
        (Reduction.apply ⟨func, distinct⟩ (rows.map f)) k
  | plain {e : Expr} {n k : Nat} {v : Json} {ts : List Term}
      (noKey : scope.keySlot? e = none) (isPlain : e.isPlain)
      (datum_eq : e.datum engine params = .ok v)
      (operands_eq : YieldsEach (compile engine params scope) e.operands n ts k) :
      Compiled e n (e.build v ts) k

theorem yields_compile_of_isPlain {e : Expr} {n k : Nat} {t : Term} (hp : e.isPlain)
    (hk : scope.keySlot? e = none) :
    (e.compile engine params scope).Yields n t k ↔
      ∃ v ts, e.datum engine params = .ok v ∧
        YieldsEach (compile engine params scope) e.operands n ts k ∧ t = e.build v ts := by
  rw [compile_of_isPlain hp hk]
  simp only [yields_bind, yields_lift, yields_mapM, yields_pure]
  constructor
  · rintro ⟨v, n, ⟨hv, rfl⟩, ts, k, hts, rfl, rfl⟩
    exact ⟨v, ts, hv, hts, rfl⟩
  · rintro ⟨v, ts, hv, hts, rfl⟩
    exact ⟨v, n, ⟨hv, rfl⟩, ts, k, hts, rfl, rfl⟩

theorem compile_aggregate_of_noRows {func : AggregateFunc} {arg : Expr} {distinct : Bool}
    (hk : scope.keySlot? (.aggregate func arg distinct) = none) (hr : scope.rows? = none) :
    (aggregate func arg distinct).compile engine params scope =
      throw (.misplacedAggregate (.aggregate func arg distinct)) := by
  rw [compile.eq_def, hk]
  simp only [hr]

theorem compile_aggregate {func : AggregateFunc} {arg : Expr} {distinct : Bool} {rows : Term}
    {width : Nat} (hk : scope.keySlot? (.aggregate func arg distinct) = none)
    (hr : scope.rows? = some (rows, width)) :
    (aggregate func arg distinct).compile engine params scope =
      if arg.containsAggregate then throw (.nestedAggregate (.aggregate func arg distinct))
      else if width = 1 ∧ arg.sameAs (.entity 0) then
        pure (Reduction.apply ⟨func, distinct⟩ rows)
      else do
        let f ← lambda fun row => arg.compile engine params (.row row width)
        return Reduction.apply ⟨func, distinct⟩ (rows.map f) := by
  rw [compile.eq_def, hk]
  simp only [hr]

theorem yields_compile_iff {e : Expr} {n k : Nat} {t : Term} :
    (e.compile engine params scope).Yields n t k ↔ Compiled engine params scope e n t k := by
  constructor
  · intro h
    rcases hk : scope.keySlot? e with _ | slot
    · cases e with
      | field r name =>
          rw [compile.eq_def, hk] at h
          obtain ⟨ht, rfl⟩ := yields_lift.mp h
          exact .field hk ht
      | entity r =>
          rw [compile.eq_def, hk] at h
          obtain ⟨ht, rfl⟩ := yields_lift.mp h
          exact .entity hk ht
      | update op name v =>
          rw [compile.eq_def, hk] at h
          exact absurd h not_yields_throw
      | aggregate func arg distinct =>
          rcases hr : scope.rows? with _ | ⟨rows, width⟩
          · rw [compile_aggregate_of_noRows hk hr] at h
            exact absurd h not_yields_throw
          · rw [compile_aggregate hk hr] at h
            split at h
            · exact absurd h not_yields_throw
            · rename_i ha
              split at h
              · rename_i hw
                rw [sameAs_entity_iff] at hw
                obtain ⟨rfl, rfl⟩ := hw
                obtain ⟨rfl, rfl⟩ := yields_pure.mp h
                exact .whole hk hr
              · rename_i hw
                rw [sameAs_entity_iff] at hw
                simp only [yields_bind, yields_pure] at h
                obtain ⟨f, j, hf, rfl, rfl⟩ := h
                exact .mapped hk hr (by simpa using ha) hw hf
      | _ =>
          obtain ⟨v, ts, hv, hts, rfl⟩ := (yields_compile_of_isPlain rfl hk).mp h
          exact .plain hk rfl hv hts
    · rw [compile_of_keySlot hk] at h
      obtain ⟨rfl, rfl⟩ := yields_pure.mp h
      exact .key hk
  · intro h
    cases h with
    | key slot => rw [compile_of_keySlot slot]; exact yields_pure.mpr ⟨rfl, rfl⟩
    | field noKey read => rw [compile.eq_def, noKey]; exact yields_lift.mpr ⟨read, rfl⟩
    | entity noKey read => rw [compile.eq_def, noKey]; exact yields_lift.mpr ⟨read, rfl⟩
    | whole noKey rows_eq =>
        rw [compile_aggregate noKey rows_eq, if_neg (by simp [containsAggregate]),
          if_pos ⟨rfl, sameAs_entity_iff.mpr rfl⟩]
        exact yields_pure.mpr ⟨rfl, rfl⟩
    | mapped noKey rows_eq flat not_whole func_eq =>
        rw [compile_aggregate noKey rows_eq, if_neg (by simp [flat]),
          if_neg (by rwa [sameAs_entity_iff])]
        simp only [yields_bind, yields_pure]
        exact ⟨_, _, func_eq, rfl, rfl⟩
    | plain noKey isPlain datum_eq operands_eq =>
        exact (yields_compile_of_isPlain isPlain noKey).mpr ⟨_, _, datum_eq, operands_eq, rfl⟩

theorem grows_compile (e : Expr) (scope : Scope) : (e.compile engine params scope).Grows := by
  induction e using inductionOnOperands generalizing scope with
  | step e ih =>
      rcases hk : scope.keySlot? e with _ | slot
      · cases e with
        | field | entity => rw [compile.eq_def, hk]; exact grows_lift _
        | update => rw [compile.eq_def, hk]; exact grows_throw _
        | aggregate func arg distinct =>
            rcases hr : scope.rows? with _ | ⟨rows, width⟩
            · rw [compile_aggregate_of_noRows hk hr]
              exact grows_throw _
            · rw [compile_aggregate hk hr]
              split_ifs
              · exact grows_throw _
              · exact grows_pure _
              · refine (Grows.lambda fun row => ?_).bind fun _ => grows_pure _
                exact ih arg (List.mem_singleton_self arg) _
        | _ =>
            rw [compile_of_isPlain rfl hk]
            refine (grows_lift _).bind fun v => ?_
            exact (Grows.mapM fun x hx => ih x hx scope).bind fun ts => grows_pure _
      · rw [compile_of_keySlot hk]
        exact grows_pure _

/-- Numbers are drawn for the functions of aggregates only, so where no rows are
there to aggregate none are drawn. -/
theorem drawsNothing_compile (hr : scope.rows? = none) (e : Expr) :
    (e.compile engine params scope).DrawsNothing := by
  induction e using inductionOnOperands with
  | step e ih =>
      rcases hk : scope.keySlot? e with _ | slot
      · cases e with
        | field | entity => rw [compile.eq_def, hk]; exact drawsNothing_lift _
        | update => rw [compile.eq_def, hk]; exact drawsNothing_throw _
        | aggregate =>
            rw [compile_aggregate_of_noRows hk hr]
            exact drawsNothing_throw _
        | _ =>
            rw [compile_of_isPlain rfl hk]
            refine (drawsNothing_lift _).bind fun v => ?_
            exact (DrawsNothing.mapM ih).bind fun ts => drawsNothing_pure _
      · rw [compile_of_keySlot hk]
        exact drawsNothing_pure _

/-- An offset or limit is a number that is read where no row is in scope. -/
theorem yields_compileCount {clause : String} {e : Expr} {n k : Nat} {t : Term} :
    (e.compileCount engine params clause).Yields n t k ↔
      ∃ m, (e.compile engine params .empty).Yields n (.datum (.number m)) k ∧ m.isCount ∧
        t = .datum (.number m) := by
  rw [compileCount, yields_bind]
  constructor
  · rintro ⟨u, j, hu, ht⟩
    split at ht
    · split at ht
      · rename_i m hm
        obtain ⟨rfl, rfl⟩ := yields_pure.mp ht
        exact ⟨m, hu, hm, rfl⟩
      · exact absurd ht not_yields_throw
    · exact absurd ht not_yields_throw
  · rintro ⟨m, hm, hcount, rfl⟩
    refine ⟨_, k, hm, ?_⟩
    simp [hcount]

end

end Expr

end DocQuery
