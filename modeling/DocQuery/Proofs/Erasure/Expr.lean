import DocQuery.Proofs.Expr.Congruence

/-!
# Terms up to their data

Two compilations that differ in the parameters only run in step: whatever one
builds, the other builds with other data in the same places, and both draw the
same numbers.
-/

namespace DocQuery

/-! ## Erasure -/

namespace Term

mutual

/-- A term with every datum replaced by `null`. -/
def erase : Term → Term
  | .datum _ => .datum .null
  | .makeArray items => .makeArray (eraseAll items)
  | .makeObject entries => .makeObject (eraseEntries entries)
  | .var id => .var id
  | .func params body => .func params body.erase
  | .op k args optargs => .op k (eraseAll args) (eraseEntries optargs)

def eraseAll : List Term → List Term
  | [] => []
  | t :: rest => t.erase :: eraseAll rest

def eraseEntries : List (String × Term) → List (String × Term)
  | [] => []
  | (k, t) :: rest => (k, t.erase) :: eraseEntries rest

end

theorem eraseAll_eq_map (ts : List Term) : eraseAll ts = ts.map erase := by
  induction ts with
  | nil => rfl
  | cons t rest ih => rw [eraseAll, List.map_cons, ih]

theorem eraseEntries_eq_map (es : List (String × Term)) :
    eraseEntries es = es.map fun e => (e.1, e.2.erase) := by
  induction es with
  | nil => rfl
  | cons e rest ih => rw [eraseEntries, List.map_cons, ih]

@[simp] theorem erase_func (ps : List Nat) (t : Term) : (func ps t).erase = .func ps t.erase := rfl

@[simp] theorem erase_makeArray (ts : List Term) :
    (makeArray ts).erase = .makeArray (ts.map erase) :=
  congrArg makeArray (eraseAll_eq_map ts)

@[simp] theorem erase_makeObject (es : List (String × Term)) :
    (makeObject es).erase = .makeObject (es.map fun e => (e.1, e.2.erase)) :=
  congrArg makeObject (eraseEntries_eq_map es)

@[simp] theorem erase_op (k : Kind) (ts : List Term) (os : List (String × Term)) :
    (op k ts os).erase = .op k (ts.map erase) (os.map fun o => (o.1, o.2.erase)) := by
  rw [erase, eraseAll_eq_map, eraseEntries_eq_map]

@[simp] theorem erase_call (k : Kind) (ts : List Term) :
    (call k ts).erase = .call k (ts.map erase) := by
  simp [call]

/-- What is built has its data and its operands in places that depend on neither. -/
theorem congruence_erase : Congruence fun t u => t.erase = u.erase where
  datum _ := rfl
  func h := by rw [erase_func, erase_func, h]
  makeArray h := by rw [erase_makeArray, erase_makeArray, Compile.forall₂_map_eq_map.mp h]
  makeObject {keys ts us} h := by
    have hzip (ts : List Term) : (keys.zip ts).map (fun e => (e.1, e.2.erase)) =
        keys.zip (ts.map erase) := by
      rw [List.zip_map_right]
      rfl
    rw [erase_makeObject, erase_makeObject, hzip, hzip, Compile.forall₂_map_eq_map.mp h]
  call _ h := by rw [erase_call, erase_call, Compile.forall₂_map_eq_map.mp h]

end Term

/-! ## Runs in step -/

namespace Compile

variable {α β γ δ : Type}

/-- Whenever both compilations succeed from the same number, they yield the same
up to `φ` and leave the same number. -/
def InStep (φ : α → γ) (m m' : Compile α) : Prop :=
  ∀ n a a' k k', m.Yields n a k → m'.Yields n a' k' → φ a = φ a' ∧ k = k'

variable {φ : α → γ} {ψ : β → δ}

theorem inStep_pure {a a' : α} (h : φ a = φ a') : InStep φ (pure a) (pure a') := by
  intro n b b' k k' hb hb'
  obtain ⟨rfl, rfl⟩ := yields_pure.mp hb
  obtain ⟨rfl, rfl⟩ := yields_pure.mp hb'
  exact ⟨h, rfl⟩

theorem inStep_throw {r : Rejection} {m : Compile α} : InStep φ (throw r) m := by
  intro n a a' k k' ha
  exact absurd ha not_yields_throw

theorem inStep_lift {x x' : Except Rejection α}
    (h : ∀ a a', x = .ok a → x' = .ok a' → φ a = φ a') : InStep φ (liftM x) (liftM x') := by
  intro n a a' k k' ha ha'
  obtain ⟨hx, rfl⟩ := yields_lift.mp ha
  obtain ⟨hx', rfl⟩ := yields_lift.mp ha'
  exact ⟨h a a' hx hx', rfl⟩

theorem InStep.bind {m m' : Compile α} {f f' : α → Compile β} (hm : InStep φ m m')
    (hf : ∀ a a', φ a = φ a' → InStep ψ (f a) (f' a')) : InStep ψ (m >>= f) (m' >>= f') := by
  intro n b b' k k' hb hb'
  obtain ⟨a, j, ha, hb⟩ := yields_bind.mp hb
  obtain ⟨a', j', ha', hb'⟩ := yields_bind.mp hb'
  obtain ⟨hφ, rfl⟩ := hm n a a' j j' ha ha'
  exact hf a a' hφ j b b' k k' hb hb'

theorem InStep.lambda {body body' : Term → Compile Term}
    (h : ∀ n, InStep Term.erase (body (.var n)) (body' (.var n))) :
    InStep Term.erase (lambda body) (lambda body') := by
  intro n f f' k k' hf hf'
  obtain ⟨t, ht, rfl⟩ := yields_lambda.mp hf
  obtain ⟨t', ht', rfl⟩ := yields_lambda.mp hf'
  obtain ⟨herase, rfl⟩ := h n _ t t' k k' ht ht'
  exact ⟨congrArg (Term.func [n]) herase, rfl⟩

theorem InStep.lambda₂ {body body' : Term → Term → Compile Term}
    (h : ∀ a b, InStep Term.erase (body (.var a) (.var b)) (body' (.var a) (.var b))) :
    InStep Term.erase (lambda₂ body) (lambda₂ body') := by
  intro n f f' k k' hf hf'
  obtain ⟨t, ht, rfl⟩ := yields_lambda₂.mp hf
  obtain ⟨t', ht', rfl⟩ := yields_lambda₂.mp hf'
  obtain ⟨herase, rfl⟩ := h n (n + 1) _ t t' k k' ht ht'
  exact ⟨congrArg (Term.func [n, n + 1]) herase, rfl⟩

theorem InStep.mapM {f f' : α → Compile β} {as : List α}
    (h : ∀ a ∈ as, InStep ψ (f a) (f' a)) :
    InStep (List.map ψ) (as.mapM f) (as.mapM f') := by
  induction as with
  | nil => exact inStep_pure rfl
  | cons a as ih =>
      rw [List.mapM_cons, List.mapM_cons]
      refine (h a List.mem_cons_self).bind fun b b' hb => ?_
      refine (ih fun x hx => h x (List.mem_cons_of_mem _ hx)).bind fun bs bs' hbs => ?_
      exact inStep_pure (by rw [List.map_cons, List.map_cons, hb, hbs])

theorem InStep.outcome {m m' : Compile α} (h : InStep φ m m') {a a' : α}
    (ha : m.outcome = .ok a) (ha' : m'.outcome = .ok a') : φ a = φ a' := by
  obtain ⟨k, ha⟩ := outcome_eq_ok.mp ha
  obtain ⟨k', ha'⟩ := outcome_eq_ok.mp ha'
  exact (h 1 a a' k k' ha ha').1

end Compile

/-! ## Scopes -/

namespace Scope

open Term

/-- Scopes of one form whose terms are equal up to their data. -/
inductive Alike : Scope → Scope → Prop
  | empty : Alike .empty .empty
  | row {t t' : Term} {width : Nat} (record : t.erase = t'.erase) :
      Alike (.row t width) (.row t' width)
  | pair {l l' r r' : Term} {width : Nat} (left : l.erase = l'.erase)
      (right : r.erase = r'.erase) : Alike (.pair l width r) (.pair l' width r')
  | bucket {t t' : Term} {keys : List Expr} {width : Nat} (group : t.erase = t'.erase) :
      Alike (.bucket t keys width) (.bucket t' keys width)
  | total {t t' : Term} {width : Nat} (rows : t.erase = t'.erase) :
      Alike (.total t width) (.total t' width)

theorem Alike.refl (scope : Scope) : Alike scope scope := by
  cases scope with
  | empty => exact .empty
  | row => exact .row rfl
  | pair => exact .pair rfl rfl
  | bucket => exact .bucket rfl
  | total => exact .total rfl

variable {scope scope' : Scope} {t t' : Term}

theorem erase_slot {record record' : Term} {width r : Nat}
    (hrecord : record.erase = record'.erase) (h : slot record width r = .ok t)
    (h' : slot record' width r = .ok t') : t.erase = t'.erase := by
  simp only [slot] at h h'
  split_ifs at h h' <;> cases h <;> cases h'
  · exact hrecord
  · simp [Term.nth, hrecord]

theorem Alike.document {r : Nat} (hs : scope.Alike scope') (h : scope.document r = .ok t)
    (h' : scope'.document r = .ok t') : t.erase = t'.erase := by
  cases hs with
  | row record => exact erase_slot record h h'
  | pair left right =>
      simp only [Scope.document] at h h'
      split_ifs at h h'
      · cases h
        cases h'
        exact right
      · exact erase_slot left h h'
  | empty | bucket | total => cases h

theorem Alike.field {r : Nat} {name : String} (hs : scope.Alike scope')
    (h : scope.field r name = .ok t) (h' : scope'.field r name = .ok t') :
    t.erase = t'.erase := by
  have hread {scope : Scope} {t : Term}
      (h : (do return (← scope.document r).bracket name) = Except.ok t) :
      ∃ d, scope.document r = .ok d ∧ t = d.bracket name := by
    rcases hd : scope.document r with _ | d
    · rw [hd] at h
      cases h
    · rw [hd] at h
      cases h
      exact ⟨d, rfl, rfl⟩
  cases hs with
  | row | pair =>
      obtain ⟨d, hd, rfl⟩ := hread h
      obtain ⟨d', hd', rfl⟩ := hread h'
      have hdoc : d.erase = d'.erase := Alike.document (by constructor <;> assumption) hd hd'
      simp [Term.bracket, hdoc]
  | empty =>
      simp only [Scope.field] at h h'
      split_ifs at h h'
      cases h
      cases h'
      rfl
  | bucket | total => cases h

theorem Alike.keySlot (hs : scope.Alike scope') (e : Expr) :
    (scope.keySlot? e).map erase = (scope'.keySlot? e).map erase := by
  cases hs with
  | bucket group => simp [keySlot?, Term.nth, Term.bracket, Function.comp_def, group]
  | empty | row | pair | total => rfl

theorem Alike.rows (hs : scope.Alike scope') :
    scope.rows?.map (fun r => (r.1.erase, r.2)) = scope'.rows?.map fun r => (r.1.erase, r.2) := by
  cases hs with
  | bucket group => simp [rows?, Term.bracket, group]
  | total rows => simp [rows?, rows]
  | empty | row | pair => rfl

end Scope

/-! ## Expressions -/

namespace Expr

open Compile Term

theorem inStep_compile {engine : RegexEngine} {params params' : Params} {scope scope' : Scope}
    (e : Expr) (hs : scope.Alike scope') :
    InStep erase (e.compile engine params scope) (e.compile engine params' scope') := by
  induction e using inductionOnOperands generalizing scope scope' with
  | step e ih =>
      have hkeys := hs.keySlot e
      rcases hk : scope.keySlot? e with _ | slot
      · have hk' : scope'.keySlot? e = none := by
          rw [hk] at hkeys
          exact Option.map_eq_none_iff.mp hkeys.symm
        cases e with
        | field r name =>
            rw [compile.eq_def, compile.eq_def, hk, hk']
            exact inStep_lift fun t t' => hs.field
        | entity r =>
            rw [compile.eq_def, compile.eq_def, hk, hk']
            exact inStep_lift fun t t' => hs.document
        | update op name v =>
            rw [compile.eq_def, hk]
            exact inStep_throw
        | aggregate func arg distinct =>
            have hrows := hs.rows
            rcases hr : scope.rows? with _ | ⟨rows, width⟩
            · rw [compile_aggregate_of_noRows hk hr]
              exact inStep_throw
            · rw [hr] at hrows
              obtain ⟨⟨rows', width'⟩, hr', heq⟩ := Option.map_eq_some_iff.mp hrows.symm
              obtain ⟨herase, rfl⟩ : rows'.erase = rows.erase ∧ width' = width := by
                simpa using heq
              rw [compile_aggregate hk hr, compile_aggregate hk' hr']
              split_ifs
              · exact inStep_throw
              · exact inStep_pure (congruence_erase.apply _ herase.symm)
              · have harg : InStep erase
                    (lambda fun row => arg.compile engine params (.row row width'))
                    (lambda fun row => arg.compile engine params' (.row row width')) :=
                  .lambda fun n => ih arg (List.mem_singleton_self arg) (.refl _)
                refine harg.bind fun f f' hf => inStep_pure (congruence_erase.apply _ ?_)
                simp [Term.map, herase, hf]
        | _ =>
            rw [compile_of_isPlain rfl hk, compile_of_isPlain rfl hk']
            refine (inStep_lift (φ := fun _ => ()) fun _ _ _ _ => rfl).bind fun v v' _ => ?_
            refine (InStep.mapM fun x hx => ih x hx hs).bind fun ts ts' hts => inStep_pure ?_
            exact congruence_erase.build rfl (forall₂_map_eq_map.mpr hts)
      · rw [hk] at hkeys
        obtain ⟨slot', hk', hslot⟩ := Option.map_eq_some_iff.mp hkeys.symm
        rw [compile_of_keySlot hk, compile_of_keySlot hk']
        exact inStep_pure hslot.symm

/-- Counts are data. -/
theorem inStep_compileCount {engine : RegexEngine} {params params' : Params} (clause : String)
    (e : Expr) :
    InStep erase (e.compileCount engine params clause) (e.compileCount engine params' clause) := by
  intro n t t' k k' ht ht'
  obtain ⟨m, hm, -, rfl⟩ := yields_compileCount.mp ht
  obtain ⟨m', hm', -, rfl⟩ := yields_compileCount.mp ht'
  exact ⟨rfl, (inStep_compile e (.refl _) n _ _ k k' hm hm').2⟩

end Expr

end DocQuery
