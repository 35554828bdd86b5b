import DocQuery.Store.Basic
import Mathlib.Data.List.Basic

/-!
# Values of terms

One equation for each term that compilation builds. Operations that take no
function work on the values of their arguments, whatever these are.
-/

namespace DocQuery

namespace Term

variable {store : Store} {ρ : Env}

theorem evalAll_eq_map (ts : List Term) : evalAll store ts ρ = ts.map (eval store · ρ) := by
  induction ts with
  | nil => rfl
  | cons t rest ih => rw [evalAll, List.map_cons, ih]

theorem evalEntries_eq_mapM (es : List (String × Term)) :
    evalEntries store es ρ = es.mapM fun e => (e.2.eval store ρ).map (e.1, ·) := by
  induction es with
  | nil => rfl
  | cons e rest ih =>
      obtain ⟨key, t⟩ := e
      rw [evalEntries, List.mapM_cons, ih]
      cases t.eval store ρ <;> rfl

@[simp] theorem eval_datum (v : Json) : (datum v).eval store ρ = some v := by
  rw [eval]

@[simp] theorem eval_var (id : Nat) : (var id).eval store ρ = ρ id := by
  rw [eval]

@[simp] theorem eval_makeArray (ts : List Term) :
    (makeArray ts).eval store ρ = ((ts.map (eval store · ρ)).mapM id).map .array := by
  rw [eval, evalAll_eq_map]
  cases (ts.map (eval store · ρ)).mapM id <;> rfl

@[simp] theorem eval_makeObject (es : List (String × Term)) :
    (makeObject es).eval store ρ =
      (es.mapM fun e : String × Term => (e.2.eval store ρ).map (e.1, ·)).map fun vs =>
        .object (Entries.ofPairs vs) := by
  rw [eval, evalEntries_eq_mapM]
  cases es.mapM fun e : String × Term => (e.2.eval store ρ).map (e.1, ·) <;> rfl

/-- Takes no function, so that it works on the values of its arguments. -/
def Kind.isFirstOrder : Kind → Bool
  | .map | .eqJoin | .innerJoin => false
  | _ => true

theorem eval_op {k : Kind} (hk : k.isFirstOrder) (ts : List Term) (os : List (String × Term)) :
    (op k ts os).eval store ρ = store.compute k (ts.map (eval store · ρ)) := by
  rw [← evalAll_eq_map]
  cases k <;> first | rfl | exact absurd hk Bool.false_ne_true

theorem eval_call {k : Kind} (hk : k.isFirstOrder) (ts : List Term) :
    (call k ts).eval store ρ = store.compute k (ts.map (eval store · ρ)) :=
  eval_op hk ts []

@[simp] theorem eval_bracket (t : Term) (key : String) :
    (t.bracket key).eval store ρ = (t.eval store ρ).map (·.fieldOrNull key) := by
  have hcompute (v : Option Json) : store.compute .bracket [v, some (.string key)] =
      v.map (·.fieldOrNull key) := by cases v <;> rfl
  rw [bracket, eval_call rfl, ← hcompute, List.map_cons, List.map_cons, string, eval_datum]
  rfl

@[simp] theorem eval_nth (t : Term) (i : Nat) :
    (t.nth i).eval store ρ = ((t.eval store ρ).bind Json.items?).bind (·[i]?) := by
  have hcompute (v : Option Json) : store.compute .nth [v, some (.int i)] =
      (v.bind Json.items?).bind (·[i]?) := by
    show (do (← (← v).items?)[← (Json.int i).index?]?) = _
    simp [Json.index?, Json.int, Option.bind_assoc]
  rw [nth, eval_call rfl, ← hcompute, List.map_cons, List.map_cons, nat, eval_datum]
  rfl

@[simp] theorem eval_append (t item : Term) :
    (t.append item).eval store ρ = do
      let items ← (← t.eval store ρ).items?
      return .array (items ++ [← item.eval store ρ]) := by
  rw [append, eval_call rfl]
  rfl

@[simp] theorem eval_table (db : Option String) (name : String) :
    (table db name).eval store ρ = some (.array (store.rows name)) := by
  cases db with
  | none | some => rw [table, eval_call rfl]; rfl

@[simp] theorem bind_items?_map_array (items? : Option (List Json)) :
    (items?.map Json.array).bind Json.items? = items? := by
  cases items? <;> rfl

theorem eval_map (t body : Term) (x : Nat) :
    (t.map (.func [x] body)).eval store ρ =
      (((t.eval store ρ).bind Json.items?).bind fun items =>
        items.mapM fun v => body.eval store (ρ.bind x v)).map .array := by
  rw [map, call, eval]
  simp only [Option.bind_eq_bind, Option.pure_def, Option.map_eq_bind, Option.bind_assoc,
    Function.comp_def]

theorem eval_eqJoin (t body right : Term) (x : Nat) (os : List (String × Term)) :
    (op .eqJoin [t, .func [x] body, right] os).eval store ρ =
      ((right.eval store ρ).bind Json.items?).bind fun right' =>
        (((t.eval store ρ).bind Json.items?).bind fun left' => left'.flatMapM fun l => do
          let key ← body.eval store (ρ.bind x l)
          return (right'.filter (Store.holdsKey (joinField store right os) key)).map
            (Store.pair l)).map .array := by
  rw [eval]
  simp only [Option.bind_eq_bind, Option.pure_def, Option.map_eq_bind, Option.bind_assoc,
    Function.comp_def]

theorem eval_innerJoin (t right body : Term) (x y : Nat) :
    (t.innerJoin right (.func [x, y] body)).eval store ρ =
      ((right.eval store ρ).bind Json.items?).bind fun right' =>
        (((t.eval store ρ).bind Json.items?).bind fun left' =>
          left'.flatMapM fun l => right'.flatMapM fun r => do
            let accepted ← body.eval store ((ρ.bind x l).bind y r)
            return if accepted.isTrue then [Store.pair l r] else []).map .array := by
  rw [innerJoin, call, eval]
  simp only [Option.bind_eq_bind, Option.pure_def, Option.map_eq_bind, Option.bind_assoc,
    Function.comp_def]

end Term

end DocQuery
