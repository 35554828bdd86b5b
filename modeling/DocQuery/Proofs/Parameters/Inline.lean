import DocQuery.Proofs.Acceptance.Expr
import DocQuery.Proofs.Expr.Congruence
import DocQuery.Proofs.Wire.Reading

/-!
# Parameters written in

A value can be handed over as a parameter or written into the expression as
literals, lists and maps. The two ways compile to different terms, a datum or
the operations that build it, but nothing of this is left on the wire.
-/

namespace DocQuery

/-! ## Values as expressions -/

namespace Json

/-- A value as it can be read from a text: its floats are finite and its objects
have no key twice. -/
inductive Regular : Json → Prop
  | null : Regular .null
  | bool (b : Bool) : Regular (.bool b)
  | int (n : Int) : Regular (.number (.int n))
  | float {x : Binary64} (finite : x.isFinite) : Regular (.number (.float x))
  | string (s : String) : Regular (.string s)
  | array {vs : List Json} (items : ∀ v ∈ vs, Regular v) : Regular (.array vs)
  | object {fields : List (String × Json)} (keys : (fields.map (·.1)).Nodup)
      (values : ∀ e ∈ fields, Regular e.2) : Regular (.object fields)

mutual

/-- The expression that writes a value out. -/
def toExpr : Json → Expr
  | .null => .literal .null
  | .bool b => .literal (.bool b)
  | .number (.int n) => .literal (.int n)
  | .number (.float x) => .literal (.float x)
  | .string s => .literal (.string s)
  | .array items => .list (toExprs items)
  | .object fields => .map (toExprEntries fields)

def toExprs : List Json → List Expr
  | [] => []
  | v :: rest => v.toExpr :: toExprs rest

def toExprEntries : List (String × Json) → List (String × Expr)
  | [] => []
  | (k, v) :: rest => (k, v.toExpr) :: toExprEntries rest

end

theorem toExprs_eq_map (vs : List Json) : toExprs vs = vs.map toExpr := by
  induction vs with
  | nil => rfl
  | cons v rest ih => rw [toExprs, List.map_cons, ih]

theorem toExprEntries_eq_map (fields : List (String × Json)) :
    toExprEntries fields = fields.map fun e => (e.1, e.2.toExpr) := by
  induction fields with
  | nil => rfl
  | cons e rest ih => rw [toExprEntries, List.map_cons, ih]

end Json

namespace Expr

mutual

/-- The expression with the values of its parameters written in. A parameter
that is not supplied stays. -/
def inline (params : Params) : Expr → Expr
  | .param i => (params[i]?.map Json.toExpr).getD (.param i)
  | .paramSlice start count => (Json.array ((params.drop start).take count)).toExpr
  | .literal l => .literal l
  | .field r name => .field r name
  | .entity r => .entity r
  | .compare op l r => .compare op (inline params l) (inline params r)
  | .arith op l r => .arith op (inline params l) (inline params r)
  | .and es => .and (inlineAll params es)
  | .or es => .or (inlineAll params es)
  | .not e => .not (inline params e)
  | .isIn e l => .isIn (inline params e) (inline params l)
  | .isNull e => .isNull (inline params e)
  | .like e p ignoreCase => .like (inline params e) (inline params p) ignoreCase
  | .aggregate func arg distinct => .aggregate func (inline params arg) distinct
  | .update op name v => .update op name (inline params v)
  | .tuple es => .tuple (inlineAll params es)
  | .list es => .list (inlineAll params es)
  | .map entries => .map (inlineEntries params entries)

def inlineAll (params : Params) : List Expr → List Expr
  | [] => []
  | e :: rest => inline params e :: inlineAll params rest

def inlineEntries (params : Params) : List (String × Expr) → List (String × Expr)
  | [] => []
  | (k, e) :: rest => (k, inline params e) :: inlineEntries params rest

end

theorem inlineAll_eq_map (params : Params) (es : List Expr) :
    inlineAll params es = es.map (inline params) := by
  induction es with
  | nil => rfl
  | cons e rest ih => rw [inlineAll, List.map_cons, ih]

theorem inlineEntries_eq_map (params : Params) (entries : List (String × Expr)) :
    inlineEntries params entries = entries.map fun e => (e.1, inline params e.2) := by
  induction entries with
  | nil => rfl
  | cons e rest ih => rw [inlineEntries, List.map_cons, ih]

end Expr

/-! ## The same on the wire -/

namespace Term

/-- Told apart by nothing that the store receives. -/
def SameOnWire (t u : Term) : Prop := t.wire = u.wire

theorem wire_call (kind : Kind) (ts : List Term) :
    (call kind ts).wire = .array [.int kind.code, .array (ts.map wire)] := by
  rw [call, wire, wireAll_eq_map]

theorem forall₂_sameOnWire {ts us : List Term} :
    List.Forall₂ SameOnWire ts us ↔ ts.map wire = us.map wire :=
  Compile.forall₂_map_eq_map

theorem wire_makeObject_zip (keys : List String) (ts : List Term) :
    (makeObject (keys.zip ts)).wire = .object (Entries.ofPairs (keys.zip (ts.map wire))) := by
  rw [wire, wireEntries_eq_map, List.zip_map_right]
  rfl

theorem congruence_sameOnWire : Congruence SameOnWire where
  datum _ := rfl
  func {ps t u} h := by
    unfold SameOnWire at h ⊢
    rw [wire, wire, h]
  makeArray {ts us} h := by
    rw [forall₂_sameOnWire] at h
    unfold SameOnWire
    rw [wire, wire, wireAll_eq_map, wireAll_eq_map, h]
  makeObject {keys ts us} h := by
    rw [forall₂_sameOnWire] at h
    unfold SameOnWire
    rw [wire_makeObject_zip, wire_makeObject_zip, h]
  call {kind ts us} _ h := by
    rw [forall₂_sameOnWire] at h
    unfold SameOnWire
    rw [wire_call, wire_call, h]

end Term

/-! ## Compiling what was written in -/

/-- Whether the scope is a group, where keys are read. -/
def Scope.isGroup : Scope → Bool
  | .bucket .. => true
  | _ => false

theorem Scope.keySlot?_eq_none {scope : Scope} (hs : scope.isGroup = false) (e : Expr) :
    scope.keySlot? e = none := by
  cases scope with
  | bucket => cases hs
  | empty | row | pair | total => rfl

namespace Expr

open Compile Term

variable {engine : RegexEngine} {params params' : Params} {scope : Scope}

theorem yields_compile_literal (hs : scope.isGroup = false) (l : Literal) (n : Nat) :
    ((literal l).compile engine params scope).Yields n (.datum l.value) n :=
  (yields_compile_of_isPlain rfl (Scope.keySlot?_eq_none hs _)).mpr
    ⟨l.value, [], rfl, .nil, rfl⟩

/-- A value that is written out is the value on the wire, and no number is drawn
for it. -/
theorem yields_compile_toExpr (hs : scope.isGroup = false) {v : Json} (hv : v.Regular) (n : Nat) :
    ∃ t, (v.toExpr.compile engine params scope).Yields n t n ∧ (Term.datum v).SameOnWire t := by
  induction hv with
  | null | bool | int | string => exact ⟨_, yields_compile_literal hs _ n, rfl⟩
  | float finite =>
      refine ⟨_, yields_compile_literal hs _ n, ?_⟩
      show Json.wire _ = Json.wire (if _ then _ else _)
      rw [if_pos finite]
      rfl
  | @array vs _ ih =>
      obtain ⟨ts, hts, hwire⟩ := exists_yieldsEach ih
      rw [← yieldsEach_map] at hts
      rw [Json.toExpr, Json.toExprs_eq_map]
      refine ⟨.makeArray ts, ?_, ?_⟩
      · exact (yields_compile_of_isPlain rfl (Scope.keySlot?_eq_none hs _)).mpr
          ⟨.null, ts, rfl, hts, rfl⟩
      · rw [← List.forall₂_map_left_iff, forall₂_sameOnWire, List.map_map] at hwire
        unfold SameOnWire
        rw [wire, wire, Json.wire, Json.wireItems_eq_map, wireAll_eq_map, ← hwire]
        rfl
  | @object fields keys _ ih =>
      obtain ⟨ts, hts, hwire⟩ := exists_yieldsEach ih
      have hoperands : (map (fields.map fun e => (e.1, e.2.toExpr))).operands =
          fields.map fun e => e.2.toExpr := by
        rw [operands, List.map_map]
        rfl
      rw [← yieldsEach_map, ← hoperands] at hts
      rw [Json.toExpr, Json.toExprEntries_eq_map]
      refine ⟨.makeObject ((fields.map (·.1)).zip ts), ?_, ?_⟩
      · refine (yields_compile_of_isPlain rfl (Scope.keySlot?_eq_none hs _)).mpr
          ⟨.null, ts, rfl, hts, ?_⟩
        rw [build, List.map_map]
        rfl
      · rw [← List.forall₂_map_left_iff, forall₂_sameOnWire, List.map_map] at hwire
        unfold SameOnWire
        rw [wire_makeObject_zip, ← hwire, List.zip_map', wire, Json.wire, Json.wireFields_eq_map]
        -- no value is replaced, for no key comes twice
        rw [Entries.ofPairs_of_nodup (by simpa [Function.comp_def] using keys)]
        rfl

/-- What is written out is a literal, a list or a map. -/
theorem toExpr_cases (v : Json) :
    (∃ l, v.toExpr = .literal l) ∨ (∃ es, v.toExpr = .list es) ∨
      ∃ entries, v.toExpr = .map entries := by
  cases v with
  | null | bool | string => exact Or.inl ⟨_, rfl⟩
  | number n => cases n <;> exact Or.inl ⟨_, rfl⟩
  | array vs => exact Or.inr (Or.inl ⟨_, rfl⟩)
  | object fields => exact Or.inr (Or.inr ⟨_, rfl⟩)

theorem toExpr_ne_entity (v : Json) (r : Nat) : v.toExpr ≠ .entity r := by
  rcases toExpr_cases v with ⟨x, hx⟩ | ⟨x, hx⟩ | ⟨x, hx⟩ <;> rw [hx] <;> nofun

theorem toExpr_ne_param (v : Json) (i : Nat) : v.toExpr ≠ .param i := by
  rcases toExpr_cases v with ⟨x, hx⟩ | ⟨x, hx⟩ | ⟨x, hx⟩ <;> rw [hx] <;> nofun

theorem containsAggregate_toExpr (v : Json) : v.toExpr.containsAggregate = false := by
  induction v using Json.inductionOnItems with
  | null | bool | string => rfl
  | number n => cases n <;> rfl
  | array vs ih =>
      rw [Json.toExpr, containsAggregate, Json.toExprs_eq_map, anyAggregate_eq, List.any_map,
        List.any_eq_false]
      intro v hv
      simp [ih v hv]
  | object fields ih =>
      rw [Json.toExpr, containsAggregate, Json.toExprEntries_eq_map, anyEntryAggregate_eq,
        List.any_map, List.any_eq_false]
      intro e he
      simp [ih e he]

mutual

/-- No aggregate is written in. -/
theorem containsAggregate_inline :
    ∀ e : Expr, (inline params e).containsAggregate = e.containsAggregate
  | .literal _ | .field .. | .entity _ | .aggregate .. => rfl
  | .param i => by
      rw [inline]
      cases params[i]? with
      | none => rfl
      | some v => exact containsAggregate_toExpr v
  | .paramSlice start count => by
      rw [inline, containsAggregate_toExpr]
      rfl
  | .compare _ l r | .arith _ l r | .isIn l r | .like l r _ => by
      rw [inline, containsAggregate, containsAggregate, containsAggregate_inline l,
        containsAggregate_inline r]
  | .and es | .or es | .tuple es | .list es => by
      rw [inline, containsAggregate, containsAggregate, anyAggregate_inlineAll es]
  | .not e | .isNull e | .update _ _ e => by
      rw [inline, containsAggregate, containsAggregate, containsAggregate_inline e]
  | .map entries => by
      rw [inline, containsAggregate, containsAggregate, anyEntryAggregate_inlineEntries entries]

theorem anyAggregate_inlineAll :
    ∀ es : List Expr, anyAggregate (inlineAll params es) = anyAggregate es
  | [] => rfl
  | e :: rest => by
      rw [inlineAll, anyAggregate, anyAggregate, containsAggregate_inline e,
        anyAggregate_inlineAll rest]

theorem anyEntryAggregate_inlineEntries :
    ∀ entries : List (String × Expr),
      anyEntryAggregate (inlineEntries params entries) = anyEntryAggregate entries
  | [] => rfl
  | (_, e) :: rest => by
      rw [inlineEntries, anyEntryAggregate, anyEntryAggregate, containsAggregate_inline e,
        anyEntryAggregate_inlineEntries rest]

end

theorem inline_eq_entity_iff {e : Expr} {r : Nat} :
    inline params e = .entity r ↔ e = .entity r := by
  cases e with
  | param i =>
      rw [inline]
      cases params[i]? with
      | none => rfl
      | some v => simp [toExpr_ne_entity]
  | paramSlice start count => simp [inline, toExpr_ne_entity]
  | _ => simp [inline]

/-- Whole rows stay whole rows. -/
theorem sameAs_entity_inline (e : Expr) (r : Nat) :
    (inline params e).sameAs (.entity r) = e.sameAs (.entity r) := by
  rw [Bool.eq_iff_iff, sameAs_entity_iff, sameAs_entity_iff, inline_eq_entity_iff]

theorem patternText_inline {p : Expr} {s : String} (h : p.patternText params = .ok s) :
    (inline params p).patternText [] = .ok s := by
  cases p with
  | literal l => cases l <;> exact h
  | param i =>
      rw [inline, patternText_param_eq_ok.mp h]
      rfl
  | _ => cases h

theorem likePattern_inline {p : LikePattern} {ignoreCase : Bool} {e : Expr}
    (h : e.likePattern engine params ignoreCase = .ok p) :
    (inline params e).likePattern engine [] ignoreCase = .ok p := by
  rw [likePattern_eq_ok] at h ⊢
  obtain ⟨s, hs, htaken⟩ := h
  exact ⟨s, patternText_inline hs, htaken⟩

/-- Whether a parameter stands for the expression itself or for its list. -/
def takesParam : Expr → Bool
  | .param _ | .paramSlice .. | .isIn _ (.param _) => true
  | _ => false

theorem inline_ne_param {e : Expr} (h : ∀ i, e ≠ .param i) (i : Nat) :
    inline params e ≠ .param i := by
  cases e with
  | param j => exact absurd rfl (h j)
  | paramSlice => exact toExpr_ne_param _ i
  | _ => nofun

theorem isPlain_inline {e : Expr} (hp : e.isPlain) (h : e.takesParam = false) :
    (inline params e).isPlain := by
  cases e with
  | param | paramSlice => cases h
  | field | entity | aggregate | update => cases hp
  | _ => rfl

theorem datum_isIn {e l : Expr} (h : ∀ i, l ≠ .param i) :
    (isIn e l).datum engine params = .ok .null := by
  cases l with
  | param i => exact absurd rfl (h i)
  | _ => rfl

theorem operands_inline {e : Expr} (h : e.takesParam = false) :
    (inline params e).operands = e.operands.map (inline params) := by
  cases e with
  | param | paramSlice => cases h
  | and es | or es | tuple es | list es => exact inlineAll_eq_map params es
  | map entries =>
      rw [inline, operands, operands, inlineEntries_eq_map, List.map_map, List.map_map]
      rfl
  | isIn e l =>
      have hl : ∀ i, l ≠ .param i := by
        rintro i rfl
        cases h
      rw [inline, operands_isIn hl, operands_isIn (inline_ne_param hl)]
      rfl
  | _ => rfl

theorem build_inline {e : Expr} (h : e.takesParam = false) (v : Json) (ts : List Term) :
    (inline params e).build v ts = e.build v ts := by
  cases e with
  | param | paramSlice => cases h
  | map entries =>
      rw [inline, build, build, inlineEntries_eq_map, List.map_map]
      rfl
  | _ => rcases ts with _ | ⟨t, _ | ⟨u, _ | ⟨w, rest⟩⟩⟩ <;> rfl

/-- An expression that takes no parameter itself is matched where its operands
are. -/
theorem matchedBy_inline_of_operands (hs : scope.isGroup = false) {e : Expr} (hp : e.isPlain)
    (hparam : e.takesParam = false)
    (hdatum : ∀ v, e.datum engine params = .ok v → (inline params e).datum engine [] = .ok v)
    (h : ∀ x ∈ e.operands, MatchedBy SameOnWire (x.compile engine params scope)
      ((inline params x).compile engine [] scope)) :
    MatchedBy SameOnWire (e.compile engine params scope)
      ((inline params e).compile engine [] scope) := by
  have hkeys := Scope.keySlot?_eq_none hs
  refine matchedBy_of_isPlain congruence_sameOnWire hp (isPlain_inline hp hparam) (hkeys _)
    (hkeys _) hdatum (funext fun v => funext fun ts => build_inline hparam v ts) ?_
  rw [operands_inline hparam, List.mapM_map]
  exact MatchedBy.mapM h

/-- A list that is read off a parameter is built item by item when it is written
in, before the item that is looked for. -/
theorem matchedBy_isIn_param (hs : scope.isGroup = false) (hparams : ∀ v ∈ params, v.Regular)
    {e : Expr} {i : Nat}
    (h : MatchedBy SameOnWire (e.compile engine params scope)
      ((inline params e).compile engine [] scope)) :
    MatchedBy SameOnWire ((isIn e (.param i)).compile engine params scope)
      ((inline params (isIn e (.param i))).compile engine [] scope) := by
  have hkeys := Scope.keySlot?_eq_none hs
  intro n t k ht
  obtain ⟨v, ts, hv, hts, rfl⟩ := (yields_compile_of_isPlain rfl (hkeys _)).mp ht
  obtain ⟨t, m, rest, hitem, hrest, rfl⟩ := yieldsEach_cons.mp hts
  obtain ⟨rfl, rfl⟩ := yieldsEach_nil.mp hrest
  obtain ⟨vs, hvs, rfl⟩ := exists_of_map_ok hv
  rw [items_eq_ok] at hvs
  have hinline : inline params (isIn e (.param i)) =
      .isIn (inline params e) (Json.array vs).toExpr := by
    rw [inline, inline, hvs]
    rfl
  have hregular : (Json.array vs).Regular := hparams _ (List.mem_of_getElem? hvs)
  obtain ⟨l, hl, hlist⟩ := yields_compile_toExpr hs hregular n
  obtain ⟨u, hu, htu⟩ := h n t k hitem
  have hcontains : ((Term.datum (.array vs)).contains t).SameOnWire (l.contains u) :=
    congruence_sameOnWire.call (by nofun) (.cons hlist (.cons htu .nil))
  refine ⟨l.contains u, ?_, hcontains⟩
  rw [hinline]
  refine (yields_compile_of_isPlain rfl (hkeys _)).mpr ⟨.null, [l, u], rfl, ?_, rfl⟩
  rw [operands_isIn fun i => toExpr_ne_param _ i]
  exact .cons hl (.cons hu .nil)

theorem matchedBy_inline (hparams : ∀ v ∈ params, v.Regular) (hs : scope.isGroup = false)
    (e : Expr) :
    MatchedBy SameOnWire (e.compile engine params scope)
      ((inline params e).compile engine [] scope) := by
  induction e using inductionOnOperands generalizing scope with
  | step e ih =>
      have hkeys := Scope.keySlot?_eq_none hs
      have hsame : ∀ t, SameOnWire t t := fun _ => rfl
      have hoperands := fun x hx => ih x hx hs
      cases e with
      | field | entity =>
          rw [inline, compile.eq_def, compile.eq_def, hkeys]
          exact .refl hsame _
      | update =>
          rw [compile.eq_def, hkeys]
          exact matchedBy_throw
      | param i =>
          intro n t k ht
          obtain ⟨v, ts, hv, hts, rfl⟩ := (yields_compile_of_isPlain rfl (hkeys _)).mp ht
          obtain ⟨rfl, rfl⟩ := yieldsEach_nil.mp hts
          rw [datum, value_eq_ok] at hv
          rw [inline, hv]
          exact yields_compile_toExpr hs (hparams v (List.mem_of_getElem? hv)) k
      | paramSlice start count =>
          intro n t k ht
          obtain ⟨v, ts, hv, hts, rfl⟩ := (yields_compile_of_isPlain rfl (hkeys _)).mp ht
          obtain ⟨rfl, rfl⟩ := yieldsEach_nil.mp hts
          obtain ⟨vs, hvs, rfl⟩ := exists_of_map_ok hv
          obtain ⟨-, rfl⟩ := slice_eq_ok.mp hvs
          refine yields_compile_toExpr hs (.array fun v hv => hparams v ?_) k
          exact List.mem_of_mem_drop (List.mem_of_mem_take hv)
      | aggregate func arg distinct =>
          rw [inline]
          rcases hr : scope.rows? with _ | ⟨rows, width⟩
          · rw [compile_aggregate_of_noRows (hkeys _) hr]
            exact matchedBy_throw
          · rw [compile_aggregate (hkeys _) hr, compile_aggregate (hkeys _) hr,
              containsAggregate_inline, sameAs_entity_inline]
            split_ifs
            · exact matchedBy_throw
            · exact .refl hsame _
            · have harg : MatchedBy SameOnWire
                  (lambda fun row => arg.compile engine params (.row row width))
                  (lambda fun row => (inline params arg).compile engine [] (.row row width)) :=
                .lambda congruence_sameOnWire.func fun n =>
                  ih arg (List.mem_singleton_self arg) rfl
              refine harg.bind fun f f' hf => matchedBy_pure ?_
              refine congruence_sameOnWire.apply _ ?_
              exact congruence_sameOnWire.call (by decide) (.cons (hsame rows) (.cons hf .nil))
      | isIn e l =>
          by_cases hl : ∃ i, l = .param i
          · obtain ⟨i, rfl⟩ := hl
            exact matchedBy_isIn_param hs hparams (hoperands e (List.mem_singleton_self e))
          · have hne : ∀ i, l ≠ .param i := fun i hi => hl ⟨i, hi⟩
            have hparam : (isIn e l).takesParam = false := by
              cases l with
              | param i => exact absurd rfl (hne i)
              | _ => rfl
            refine matchedBy_inline_of_operands hs rfl hparam (fun v hv => ?_) hoperands
            rw [datum_isIn hne] at hv
            rw [inline, datum_isIn (inline_ne_param hne), hv]
      | like e p ignoreCase =>
          refine matchedBy_inline_of_operands hs rfl rfl (fun v hv => ?_) hoperands
          obtain ⟨pattern, hp, rfl⟩ := exists_of_map_ok hv
          rw [inline, datum, likePattern_inline hp]
          rfl
      | _ => exact matchedBy_inline_of_operands hs rfl rfl (fun v hv => hv) hoperands

end Expr

open Compile in
/-- Outside of groups, an expression that compiles with its parameters compiles
without any when their values are written in. The numbers drawn are the same, and
so is what the store receives. -/
theorem wire_inline {engine : RegexEngine} {params : Params} {scope : Scope} {e : Expr}
    {n k : Nat} {t : Term} (hparams : ∀ v ∈ params, v.Regular) (hs : scope.isGroup = false)
    (h : (e.compile engine params scope).Yields n t k) :
    ∃ t', ((e.inline params).compile engine [] scope).Yields n t' k ∧ t'.wire = t.wire := by
  obtain ⟨t', ht', hwire⟩ := Expr.matchedBy_inline hparams hs e n t k h
  exact ⟨t', ht', hwire.symm⟩

open Compile in
/-- A list to look in, a pattern and a run with an object in it, under an
aggregate over all posts. -/
theorem wire_inline_of_posts :
    let params : Params := [.array [.int 1, .array [.null]], .string "a_%",
      .object [("x", .float (.zero true)), ("y", .array [])]]
    let rows : Scope := .total (.table none "posts") 1
    let arg : Expr :=
      .and [.isIn (.field 0 "id") (.param 0), .like (.field 0 "title") (.param 1) true]
    let e : Expr := .tuple [.aggregate .count arg false, .paramSlice 1 2]
    (∀ v ∈ params, v.Regular) ∧ rows.isGroup = false ∧
      ∃ t t', (e.compile {} params rows).Yields 4 t 5 ∧
        ((e.inline params).compile {} [] rows).Yields 4 t' 5 ∧ t'.wire = t.wire := by
  intro params rows arg e
  have hparams : ∀ v ∈ params, v.Regular := by
    have hlist : (Json.array [.int 1, .array [.null]]).Regular :=
      .array (by simp [Json.int, Json.Regular.int, Json.Regular.array, Json.Regular.null])
    have hobject : (Json.object [("x", .float (.zero true)), ("y", .array [])]).Regular :=
      .object (by simp) (by
        have hzero : (Json.float (.zero true)).Regular := .float rfl
        simp [hzero, Json.Regular.array])
    intro v hv
    simp only [params, List.mem_cons, List.not_mem_nil, or_false] at hv
    rcases hv with rfl | rfl | rfl
    · exact hlist
    · exact .string _
    · exact hobject
  have ht : (e.compile {} params rows).Yields 4 _ 5 := rfl
  obtain ⟨t', ht', hwire⟩ := wire_inline hparams rfl ht
  exact ⟨hparams, rfl, _, t', ht, ht', hwire⟩

end DocQuery
