import DocQuery.Proofs.Acceptance.Expr
import DocQuery.Proofs.Store.Eval
import DocQuery.Store.Expr

/-!
# Compiled expressions have their value

In every scope, the term that an expression without aggregates compiles to has
the value of the expression over the documents that the scope gives, provided
that the keys of the scope have the value of what is read from them.
-/

namespace DocQuery

namespace Expr

open Compile Term

variable {store : Store} {engine : RegexEngine} {params : Params} {document : Nat → Option Json}
  {ρ : Env}

theorem values_eq_map (es : List Expr) :
    values store params document es = es.map (value store params document) := by
  induction es with
  | nil => rfl
  | cons e rest ih => rw [values, List.map_cons, ih]

theorem entryValues_eq_mapM (entries : List (String × Expr)) :
    entryValues store params document entries =
      entries.mapM fun e => (e.2.value store params document).map (e.1, ·) := by
  induction entries with
  | nil => rfl
  | cons e rest ih =>
      obtain ⟨key, e⟩ := e
      rw [entryValues, List.mapM_cons, ih]
      cases e.value store params document <;> rfl

theorem eval_connective {kind : Kind} (hk : kind.isFirstOrder) (neutral : Bool)
    {connect : List (Option Json) → Option Json} (hconnect : store.compute kind = connect)
    (ts : List Term) :
    (connective (call kind) neutral ts).eval store ρ =
      connected neutral connect (ts.map (eval store · ρ)) := by
  match ts with
  | [] => simp [connective, connected, Term.bool]
  | [t] => simp [connective, connected]
  | t :: u :: rest =>
      show (call kind (t :: u :: rest)).eval store ρ =
        connect ((t :: u :: rest).map (eval store · ρ))
      rw [eval_call hk, hconnect]

theorem pattern?_of_patternText {p : Expr} {s : String} (h : p.patternText params = .ok s) :
    p.pattern? params = some s := by
  cases p with
  | literal l => cases l <;> simp_all [patternText, pattern?]
  | param i =>
      rw [patternText_param_eq_ok] at h
      simp [pattern?, h, Json.string?]
  | _ => simp [patternText] at h

/-- What is built from the terms of the operands has the value of the expression. -/
theorem eval_build {e : Expr} {v : Json} {ts : List Term} (hp : e.isPlain)
    (hv : e.datum engine params = .ok v)
    (hts : ts.map (eval store · ρ) = e.operands.map (value store params document)) :
    (e.build v ts).eval store ρ = e.value store params document := by
  have hlen : ts.length = e.operands.length := by
    simpa using congrArg List.length hts
  cases e with
  | field | entity | aggregate | update => cases hp
  | literal l =>
      cases hv
      rw [build, eval_datum, value]
  | param i => rw [build, eval_datum, value, value_eq_ok.mp hv]
  | paramSlice start count =>
      obtain ⟨vs, hvs, rfl⟩ := exists_of_map_ok hv
      obtain ⟨⟨-, hlength⟩, rfl⟩ := slice_eq_ok.mp hvs
      rw [build, eval_datum, value, if_pos hlength]
  | and es =>
      have hand : (connective (call .and) true ts).eval store ρ =
          connected true Store.all (ts.map (eval store · ρ)) := eval_connective rfl true rfl ts
      rw [value, values_eq_map]
      exact hand.trans (congrArg _ hts)
  | or es =>
      have hor : (connective (call .or) false ts).eval store ρ =
          connected false Store.any (ts.map (eval store · ρ)) := eval_connective rfl false rfl ts
      rw [value, values_eq_map]
      exact hor.trans (congrArg _ hts)
  | tuple es | list es =>
      rw [build, eval_makeArray, hts, value, values_eq_map, Option.map_eq_bind]
      rfl
  | map entries =>
      -- the keys stay, so the entries pair them with the values of their operands
      have hentries : ((entries.map (·.1)).zip ts).mapM (fun e : String × Term =>
          (e.2.eval store ρ).map (e.1, ·)) =
          entries.mapM fun e => (e.2.value store params document).map (e.1, ·) := by
        calc
          _ = ((entries.map (·.1)).zip (ts.map (eval store · ρ))).mapM
                fun e : String × Option Json => e.2.map (e.1, ·) := by
              rw [List.zip_map_right, List.mapM_map]
              rfl
          _ = (entries.map fun e => (e.1, e.2.value store params document)).mapM
                fun e : String × Option Json => e.2.map (e.1, ·) := by
              rw [hts, operands, List.map_map, List.zip_map']
              rfl
          _ = _ := by
              rw [List.mapM_map]
              rfl
      rw [build, eval_makeObject, hentries, value, entryValues_eq_mapM, Option.map_eq_bind]
      rfl
  | compare op l r | arith op l r =>
      obtain ⟨t, u, rfl⟩ := List.length_eq_two.mp hlen
      obtain ⟨ht, hu⟩ : t.eval store ρ = l.value store params document ∧
          u.eval store ρ = r.value store params document := by simpa [operands] using hts
      rw [value, ← ht, ← hu]
      cases op <;> exact eval_call rfl [t, u]
  | not e | isNull e =>
      obtain ⟨t, rfl⟩ := List.length_eq_one_iff.mp hlen
      obtain ht : t.eval store ρ = e.value store params document := by simpa [operands] using hts
      rw [value, ← ht]
      exact eval_call rfl _
  | like e p ignoreCase =>
      obtain ⟨t, rfl⟩ := List.length_eq_one_iff.mp hlen
      obtain ht : t.eval store ρ = e.value store params document := by simpa [operands] using hts
      obtain ⟨q, hq, rfl⟩ := exists_of_map_ok hv
      obtain ⟨s, hs, -, rfl⟩ := likePattern_eq_ok.mp hq
      rw [value, ← ht, pattern?_of_patternText hs]
      exact eval_call rfl _
  | isIn e l =>
      by_cases hl : ∃ i, l = .param i
      · obtain ⟨i, rfl⟩ := hl
        obtain ⟨t, rfl⟩ := List.length_eq_one_iff.mp hlen
        obtain ht : t.eval store ρ = e.value store params document := by
          simpa [operands] using hts
        obtain ⟨vs, hvs, rfl⟩ := exists_of_map_ok hv
        rw [value, ← ht, value, items_eq_ok.mp hvs]
        exact eval_call rfl _
      · rw [operands_isIn fun i hi => hl ⟨i, hi⟩] at hlen hts
        obtain ⟨t, u, rfl⟩ := List.length_eq_two.mp hlen
        obtain ⟨ht, hu⟩ : t.eval store ρ = l.value store params document ∧
            u.eval store ρ = e.value store params document := by simpa using hts
        rw [value, ← ht, ← hu]
        exact eval_call rfl [t, u]

/-- The term of an expression without aggregates has its value, in every scope whose
reads and key places have the values that they stand for. -/
theorem eval_of_yields {scope : Scope} {e : Expr} {n k : Nat} {t : Term}
    (hflat : e.containsAggregate = false)
    (hdocument : ∀ r d, scope.document r = .ok d → d.eval store ρ = document r)
    (hfield : ∀ r name u, scope.field r name = .ok u →
      u.eval store ρ = (document r).map (·.fieldOrNull name))
    (hkeys : ∀ x ∈ e.parts, ∀ slot, scope.keySlot? x = some slot →
      slot.eval store ρ = x.value store params document)
    (h : (e.compile engine params scope).Yields n t k) :
    t.eval store ρ = e.value store params document := by
  induction e using inductionOnOperands generalizing n k t with
  | step e ih =>
      rcases yields_compile_iff.mp h with slot | ⟨-, read⟩ | ⟨-, read⟩ | _ | _ |
        ⟨-, isPlain, datum_eq, operands_eq⟩
      · exact hkeys e (self_mem_parts e) _ slot
      · rw [hfield _ _ _ read, value]
      · rw [hdocument _ _ read, value]
      · cases hflat
      · cases hflat
      · refine eval_build isPlain datum_eq (operands_eq.map_eq fun x hx i u j hu => ?_)
        refine ih x hx (containsAggregate_eq_false_of_mem_operands hx hflat) ?_ hu
        intro y hy
        exact hkeys y (parts_subset_of_mem_operands hx hy)

/-- Over rows nothing but the documents has to be looked at. -/
theorem eval_of_yields_row {scope : Scope} {w : Nat} (hw : scope.rowWidth? = some w) {e : Expr}
    {n k : Nat} {t : Term}
    (hdocument : ∀ r d, scope.document r = .ok d → d.eval store ρ = document r)
    (h : (e.compile engine params scope).Yields n t k) :
    t.eval store ρ = e.value store params document := by
  have hfits : e.FitsRow engine params w := (acceptedIff_compile_row hw e n).mp ⟨t, k, h⟩
  refine eval_of_yields hfits.containsAggregate_eq_false hdocument ?_ ?_ h
  · intro r name u hu
    obtain ⟨d, hd, rfl⟩ := (Scope.field_eq_ok_iff hw).mp hu
    rw [eval_bracket, hdocument r d hd]
  · intro x _ slot hslot
    rw [Scope.keySlot?_of_rowWidth hw] at hslot
    cases hslot

end Expr

/-! ## Documents of records -/

/-- The document of a relation in a record of this width. -/
def Json.documentAt (width : Nat) (record : Json) (relation : Nat) : Option Json :=
  if width = 1 then some record else record.items?.bind (·[relation]?)

theorem Scope.eval_slot {store : Store} {ρ : Env} {v w r : Nat} {d : Term} {record : Json}
    (hd : slot (.var v) w r = .ok d) (hv : ρ v = some record) :
    d.eval store ρ = record.documentAt w r := by
  obtain ⟨-, rfl⟩ := slot_eq_ok_iff.mp hd
  by_cases h : w = 1
  · simp [h, hv, Json.documentAt]
  · simp [h, hv, Json.documentAt]

end DocQuery
