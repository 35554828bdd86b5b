import DocQuery.Proofs.Expr.Congruence

/-!
# Qualified tables

A database goes in front of every table of a term and nowhere else. Compiling
against a scope whose terms are qualified gives the qualified term: the same
compilation runs, and what it yields is qualified afterwards.
-/

namespace DocQuery

namespace Term

/-- What a database puts in front of the arguments of an operation. -/
def qualifier (db : Option String) : Kind → List Term
  | .table => db.toList.map fun name => .call .db [.string name]
  | _ => []

mutual

/-- A term with every table in it read from a database. -/
def qualify (db : Option String) : Term → Term
  | .datum v => .datum v
  | .makeArray items => .makeArray (qualifyAll db items)
  | .makeObject entries => .makeObject (qualifyEntries db entries)
  | .var id => .var id
  | .func params body => .func params (qualify db body)
  | .op k args optargs => .op k (qualifier db k ++ qualifyAll db args) (qualifyEntries db optargs)

def qualifyAll (db : Option String) : List Term → List Term
  | [] => []
  | t :: rest => qualify db t :: qualifyAll db rest

def qualifyEntries (db : Option String) : List (String × Term) → List (String × Term)
  | [] => []
  | (k, t) :: rest => (k, qualify db t) :: qualifyEntries db rest

end

variable {db : Option String}

theorem qualifyAll_eq_map (ts : List Term) : qualifyAll db ts = ts.map (qualify db) := by
  induction ts with
  | nil => rfl
  | cons t rest ih => rw [qualifyAll, List.map_cons, ih]

theorem qualifyEntries_eq_map (es : List (String × Term)) :
    qualifyEntries db es = es.map fun e => (e.1, e.2.qualify db) := by
  induction es with
  | nil => rfl
  | cons e rest ih => rw [qualifyEntries, List.map_cons, ih]

@[simp] theorem qualify_datum (v : Json) : (datum v).qualify db = .datum v := rfl

@[simp] theorem qualify_var (id : Nat) : (var id).qualify db = .var id := rfl

@[simp] theorem qualify_func (ps : List Nat) (t : Term) :
    (func ps t).qualify db = .func ps (t.qualify db) := rfl

@[simp] theorem qualify_makeArray (ts : List Term) :
    (makeArray ts).qualify db = .makeArray (ts.map (qualify db)) :=
  congrArg makeArray (qualifyAll_eq_map ts)

theorem qualify_makeObject (es : List (String × Term)) :
    (makeObject es).qualify db = .makeObject (es.map fun e => (e.1, e.2.qualify db)) :=
  congrArg makeObject (qualifyEntries_eq_map es)

theorem qualifier_of_ne {kind : Kind} (h : kind ≠ .table) : qualifier db kind = [] := by
  cases kind with
  | table => exact absurd rfl h
  | _ => rfl

@[simp] theorem qualify_op {kind : Kind} (h : kind ≠ .table) (ts : List Term)
    (os : List (String × Term)) :
    (op kind ts os).qualify db =
      .op kind (ts.map (qualify db)) (os.map fun o => (o.1, o.2.qualify db)) := by
  rw [qualify, qualifier_of_ne h, List.nil_append, qualifyAll_eq_map, qualifyEntries_eq_map]

@[simp] theorem qualify_call {kind : Kind} (h : kind ≠ .table) (ts : List Term) :
    (call kind ts).qualify db = .call kind (ts.map (qualify db)) :=
  qualify_op h ts []

/-- The tables of a term without a database are the ones that get it. -/
theorem qualify_table (name : String) : (table none name).qualify db = table db name := by
  cases db <;> rfl

mutual

theorem qualify_none : ∀ t : Term, t.qualify none = t
  | .datum _ | .var _ => rfl
  | .makeArray items => by rw [qualify, qualifyAll_none items]
  | .makeObject entries => by rw [qualify, qualifyEntries_none entries]
  | .func _ body => by rw [qualify, qualify_none body]
  | .op k args optargs => by
      have hqualifier : qualifier none k = [] := by cases k <;> rfl
      rw [qualify, hqualifier, List.nil_append, qualifyAll_none args, qualifyEntries_none optargs]

theorem qualifyAll_none : ∀ ts : List Term, qualifyAll none ts = ts
  | [] => rfl
  | t :: rest => by rw [qualifyAll, qualify_none t, qualifyAll_none rest]

theorem qualifyEntries_none : ∀ es : List (String × Term), qualifyEntries none es = es
  | [] => rfl
  | (_, t) :: rest => by rw [qualifyEntries, qualify_none t, qualifyEntries_none rest]

end

theorem congruence_qualify : Congruence fun t u => u = t.qualify db where
  datum _ := rfl
  func h := congrArg _ h
  makeArray h := by
    rw [Compile.forall₂_eq_map] at h
    rw [h, qualify_makeArray]
  makeObject {keys ts us} h := by
    rw [Compile.forall₂_eq_map] at h
    rw [h, qualify_makeObject, List.zip_map_right]
    rfl
  call hkind h := by
    rw [Compile.forall₂_eq_map] at h
    rw [h, qualify_call hkind]

end Term

/-! ## Compilations -/

namespace Compile

variable {db : Option String}

theorem lambda_eq_map {body body' : Term → Compile Term}
    (h : ∀ v, body' (.var v) = Term.qualify db <$> body (.var v)) :
    lambda body' = Term.qualify db <$> lambda body := by
  rw [lambda, lambda, map_bind]
  refine bind_congr fun v => bind_eq_map (h v) fun t => ?_
  rw [map_pure, Term.qualify_func]

theorem lambda₂_eq_map {body body' : Term → Term → Compile Term}
    (h : ∀ a b, body' (.var a) (.var b) = Term.qualify db <$> body (.var a) (.var b)) :
    lambda₂ body' = Term.qualify db <$> lambda₂ body := by
  rw [lambda₂, lambda₂, map_bind]
  refine bind_congr fun a => ?_
  rw [map_bind]
  refine bind_congr fun b => bind_eq_map (h a b) fun t => ?_
  rw [map_pure, Term.qualify_func]

end Compile

/-! ## Scopes -/

namespace Scope

/-- A scope with its terms qualified. -/
def qualify (db : Option String) : Scope → Scope
  | .empty => .empty
  | .row record width => .row (record.qualify db) width
  | .pair left width right => .pair (left.qualify db) width (right.qualify db)
  | .bucket group keys width => .bucket (group.qualify db) keys width
  | .total rows width => .total (rows.qualify db) width

variable {db : Option String}

theorem slot_qualify (record : Term) (width r : Nat) :
    slot (record.qualify db) width r = (slot record width r).map (Term.qualify db) := by
  rw [slot, slot]
  split_ifs
  · rfl
  · rfl
  · simp [Except.map, Term.nth, Term.nat]

theorem document_qualify (scope : Scope) (r : Nat) :
    (scope.qualify db).document r = (scope.document r).map (Term.qualify db) := by
  cases scope with
  | empty | bucket | total => rfl
  | row record width => exact slot_qualify record width r
  | pair left width right =>
      rw [qualify, document, document]
      split_ifs
      · rfl
      · exact slot_qualify left width r

theorem field_qualify (scope : Scope) (r : Nat) (name : String) :
    (scope.qualify db).field r name = (scope.field r name).map (Term.qualify db) := by
  have hread : (do return (← (scope.qualify db).document r).bracket name) =
      (do return (← scope.document r).bracket name : Except Rejection Term).map
        (Term.qualify db) := by
    rw [document_qualify]
    cases scope.document r with
    | error => rfl
    | ok t => simp [Except.map, bind, Except.bind, pure, Except.pure, Term.bracket, Term.string]
  cases scope with
  | bucket | total => rfl
  | row | pair => exact hread
  | empty =>
      rw [qualify, field]
      split_ifs <;> rfl

theorem keySlot?_qualify (db : Option String) (scope : Scope) (e : Expr) :
    (scope.qualify db).keySlot? e = (scope.keySlot? e).map (Term.qualify db) := by
  cases scope with
  | bucket => simp [qualify, keySlot?, Term.nth, Term.bracket, Term.nat, Term.string,
      Function.comp_def]
  | empty | row | pair | total => rfl

theorem rows?_qualify (db : Option String) (scope : Scope) :
    (scope.qualify db).rows? = scope.rows?.map fun r => (r.1.qualify db, r.2) := by
  cases scope with
  | bucket => simp [qualify, rows?, Term.bracket, Term.string]
  | empty | row | pair | total => rfl

end Scope

/-! ## Expressions -/

namespace Expr

open Compile

variable {db : Option String} {engine : RegexEngine} {params : Params}

theorem build_qualify (e : Expr) (v : Json) (ts : List Term) :
    e.build v (ts.map (Term.qualify db)) = (e.build v ts).qualify db :=
  Term.congruence_qualify.build rfl (forall₂_eq_map.mpr rfl)

theorem apply_qualify (r : Reduction) (seq : Term) :
    r.apply (seq.qualify db) = (r.apply seq).qualify db :=
  Term.congruence_qualify.apply r rfl

/-- No expression reads a table of its own. -/
theorem compile_qualify (e : Expr) (scope : Scope) :
    e.compile engine params (scope.qualify db) =
      Term.qualify db <$> e.compile engine params scope := by
  induction e using inductionOnOperands generalizing scope with
  | step e ih =>
      have hkeys := scope.keySlot?_qualify db e
      rcases hk : scope.keySlot? e with _ | slot
      · have hk' : (scope.qualify db).keySlot? e = none := by rw [hkeys, hk, Option.map_none]
        cases e with
        | field r name =>
            rw [compile.eq_def, compile.eq_def, hk, hk']
            simp only [Scope.field_qualify]
            exact lift_map _ _
        | entity r =>
            rw [compile.eq_def, compile.eq_def, hk, hk']
            simp only [Scope.document_qualify]
            exact lift_map _ _
        | update op name v =>
            rw [compile.eq_def, compile.eq_def, hk, hk']
            exact throw_eq_map _ _
        | aggregate func arg distinct =>
            have hrows := scope.rows?_qualify db
            rcases hr : scope.rows? with _ | ⟨rows, width⟩
            · rw [hr, Option.map_none] at hrows
              rw [compile_aggregate_of_noRows hk hr, compile_aggregate_of_noRows hk' hrows]
              exact throw_eq_map _ _
            · rw [hr, Option.map_some] at hrows
              rw [compile_aggregate hk hr, compile_aggregate hk' hrows]
              split_ifs
              · exact throw_eq_map _ _
              · rw [map_pure, apply_qualify]
              · have harg : lambda (fun row => arg.compile engine params (.row row width)) =
                    Term.qualify db <$> lambda fun row =>
                      arg.compile engine params (.row row width) :=
                  lambda_eq_map fun v => ih arg (List.mem_singleton_self arg) (.row (.var v) width)
                refine bind_eq_map harg fun f => ?_
                rw [map_pure, ← apply_qualify, Term.map, Term.map, Term.qualify_call (by decide)]
                rfl
        | _ =>
            rw [compile_of_isPlain rfl hk, compile_of_isPlain rfl hk', map_bind]
            refine bind_congr fun v => ?_
            refine bind_eq_map (mapM_eq_map fun x hx => ih x hx scope) fun ts => ?_
            rw [map_pure, build_qualify]
      · rw [compile_of_keySlot hk, compile_of_keySlot (by rw [hkeys, hk, Option.map_some])]
        rfl

/-- A count is a number. -/
theorem compileCount_qualify (clause : String) (e : Expr) :
    e.compileCount engine params clause =
      Term.qualify db <$> e.compileCount engine params clause := by
  rw [compileCount, map_bind]
  refine bind_congr fun t => ?_
  split
  · split_ifs
    · rw [map_pure, Term.qualify_datum]
    · exact throw_eq_map _ _
  · exact throw_eq_map _ _

end Expr

end DocQuery
