import DocQuery.Proofs.Wire.Reading
import Mathlib.Data.List.Nodup

/-!
# Variables in terms

A term is closed when every variable stands in the body of a function that
binds it. `WellScoped` says this below given binders, and that no function binds
a number again that is already bound around it. `WellBuilt` adds the kinds of
the operations and a bound on the numbers: it is what every step of a
compilation keeps.
-/

namespace DocQuery

namespace Term

mutual

/-- The numbers that the functions of a term bind, from left to right and as
often as they are bound. -/
def binders : Term → List Nat
  | .datum _ | .var _ => []
  | .makeArray items => bindersAll items
  | .makeObject entries => bindersEntries entries
  | .func params body => params ++ body.binders
  | .op _ args optargs => bindersAll args ++ bindersEntries optargs

def bindersAll : List Term → List Nat
  | [] => []
  | t :: rest => t.binders ++ bindersAll rest

def bindersEntries : List (String × Term) → List Nat
  | [] => []
  | (_, t) :: rest => t.binders ++ bindersEntries rest

end

/-- Every variable is one of those in sight. A function brings its own into
sight: they are different from each other and new. -/
inductive WellScoped : List Nat → Term → Prop
  | datum {sight : List Nat} (v : Json) : WellScoped sight (.datum v)
  | makeArray {sight : List Nat} {ts : List Term} (items : ∀ t ∈ ts, WellScoped sight t) :
      WellScoped sight (.makeArray ts)
  | makeObject {sight : List Nat} {es : List (String × Term)}
      (entries : ∀ e ∈ es, WellScoped sight e.2) : WellScoped sight (.makeObject es)
  | var {sight : List Nat} {id : Nat} (mem : id ∈ sight) : WellScoped sight (.var id)
  | func {sight ps : List Nat} {t : Term} (distinct : ps.Nodup) (new : ∀ p ∈ ps, p ∉ sight)
      (body : WellScoped (ps ++ sight) t) : WellScoped sight (.func ps t)
  | op {sight : List Nat} {k : Kind} {ts : List Term} {os : List (String × Term)}
      (args : ∀ t ∈ ts, WellScoped sight t) (optargs : ∀ o ∈ os, WellScoped sight o.2) :
      WellScoped sight (.op k ts os)

theorem bindersAll_eq_flatMap (ts : List Term) : bindersAll ts = ts.flatMap binders := by
  induction ts with
  | nil => rfl
  | cons t rest ih => rw [bindersAll, List.flatMap_cons, ih]

theorem bindersEntries_eq_flatMap (es : List (String × Term)) :
    bindersEntries es = (es.map (·.2)).flatMap binders := by
  induction es with
  | nil => rfl
  | cons e rest ih => rw [bindersEntries, List.map_cons, List.flatMap_cons, ih]

@[simp] theorem binders_datum (v : Json) : (datum v).binders = [] := rfl

@[simp] theorem binders_var (id : Nat) : (var id).binders = [] := rfl

@[simp] theorem binders_func (ps : List Nat) (t : Term) :
    (func ps t).binders = ps ++ t.binders := rfl

@[simp] theorem binders_makeArray (ts : List Term) :
    (makeArray ts).binders = ts.flatMap binders :=
  bindersAll_eq_flatMap ts

@[simp] theorem binders_makeObject (es : List (String × Term)) :
    (makeObject es).binders = (es.map (·.2)).flatMap binders :=
  bindersEntries_eq_flatMap es

@[simp] theorem binders_op (k : Kind) (ts : List Term) (os : List (String × Term)) :
    (op k ts os).binders = ts.flatMap binders ++ (os.map (·.2)).flatMap binders := by
  rw [binders, bindersAll_eq_flatMap, bindersEntries_eq_flatMap]

@[simp] theorem binders_call (k : Kind) (ts : List Term) :
    (call k ts).binders = ts.flatMap binders := by
  simp [call]

/-! ## Well-built terms -/

/-- In the sight of `sight`, of known kinds and with binders below `n`. -/
structure WellBuilt (sight : List Nat) (n : Nat) (t : Term) : Prop where
  closed : t.WellScoped sight
  kinded : t.WellKinded
  below : ∀ b ∈ t.binders, b < n

variable {sight : List Nat} {n k : Nat} {t : Term}

theorem WellBuilt.mono (h : t.WellBuilt sight n) (hnk : n ≤ k) : t.WellBuilt sight k :=
  ⟨h.closed, h.kinded, fun b hb => Nat.lt_of_lt_of_le (h.below b hb) hnk⟩

@[simp] theorem wellBuilt_datum (v : Json) : (datum v).WellBuilt sight n :=
  ⟨.datum v, .datum v, by simp⟩

theorem wellBuilt_var {id : Nat} (h : id ∈ sight) : (var id).WellBuilt sight n :=
  ⟨.var h, .var id, by simp⟩

@[simp] theorem wellBuilt_makeArray {ts : List Term} :
    (makeArray ts).WellBuilt sight n ↔ ∀ t ∈ ts, t.WellBuilt sight n := by
  constructor
  · rintro ⟨⟨⟩, ⟨⟩, below⟩ t ht
    rename_i closed kinded
    refine ⟨closed t ht, kinded t ht, fun b hb => below b ?_⟩
    rw [binders_makeArray]
    exact List.mem_flatMap.mpr ⟨t, ht, hb⟩
  · intro h
    refine ⟨.makeArray fun t ht => (h t ht).closed, .makeArray fun t ht => (h t ht).kinded, ?_⟩
    intro b hb
    rw [binders_makeArray] at hb
    obtain ⟨t, ht, hb⟩ := List.mem_flatMap.mp hb
    exact (h t ht).below b hb

@[simp] theorem wellBuilt_makeObject {es : List (String × Term)} :
    (makeObject es).WellBuilt sight n ↔ ∀ e ∈ es, e.2.WellBuilt sight n := by
  constructor
  · rintro ⟨⟨⟩, ⟨⟩, below⟩ e he
    rename_i closed kinded
    refine ⟨closed e he, kinded e he, fun b hb => below b ?_⟩
    rw [binders_makeObject]
    exact List.mem_flatMap.mpr ⟨e.2, List.mem_map_of_mem he, hb⟩
  · intro h
    refine ⟨.makeObject fun e he => (h e he).closed, .makeObject fun e he => (h e he).kinded, ?_⟩
    intro b hb
    rw [binders_makeObject] at hb
    obtain ⟨t, ht, hb⟩ := List.mem_flatMap.mp hb
    obtain ⟨e, he, rfl⟩ := List.mem_map.mp ht
    exact (h e he).below b hb

theorem wellBuilt_op {kind : Kind} {ts : List Term} {os : List (String × Term)} :
    (op kind ts os).WellBuilt sight n ↔
      kind.isGeneric ∧ (∀ t ∈ ts, t.WellBuilt sight n) ∧ ∀ o ∈ os, o.2.WellBuilt sight n := by
  have hbinders : (∀ b ∈ (op kind ts os).binders, b < n) ↔
      (∀ t ∈ ts, ∀ b ∈ t.binders, b < n) ∧ ∀ o ∈ os, ∀ b ∈ o.2.binders, b < n := by
    simp only [binders_op, List.forall_mem_append, List.mem_flatMap, List.mem_map]
    constructor
    · rintro ⟨hts, hos⟩
      exact ⟨fun t ht b hb => hts b ⟨t, ht, hb⟩, fun o ho b hb => hos b ⟨o.2, ⟨o, ho, rfl⟩, hb⟩⟩
    · rintro ⟨hts, hos⟩
      refine ⟨fun b ⟨t, ht, hb⟩ => hts t ht b hb, ?_⟩
      rintro b ⟨-, ⟨o, ho, rfl⟩, hb⟩
      exact hos o ho b hb
  constructor
  · rintro ⟨closed, kinded, below⟩
    obtain ⟨belowArgs, belowOptargs⟩ := hbinders.mp below
    cases closed with
    | op args optargs =>
        cases kinded with
        | op generic kindedArgs kindedOptargs =>
            exact ⟨generic, fun t ht => ⟨args t ht, kindedArgs t ht, belowArgs t ht⟩,
              fun o ho => ⟨optargs o ho, kindedOptargs o ho, belowOptargs o ho⟩⟩
  · rintro ⟨generic, args, optargs⟩
    refine ⟨.op (fun t ht => (args t ht).closed) fun o ho => (optargs o ho).closed,
      .op generic (fun t ht => (args t ht).kinded) fun o ho => (optargs o ho).kinded, ?_⟩
    exact hbinders.mpr ⟨fun t ht => (args t ht).below, fun o ho => (optargs o ho).below⟩

@[simp] theorem wellBuilt_call {kind : Kind} {ts : List Term} :
    (call kind ts).WellBuilt sight n ↔ kind.isGeneric ∧ ∀ t ∈ ts, t.WellBuilt sight n := by
  simp [call, wellBuilt_op]

theorem WellBuilt.func {ps : List Nat} (distinct : ps.Nodup) (new : ∀ p ∈ ps, p ∉ sight)
    (below : ∀ p ∈ ps, p < n) (h : t.WellBuilt (ps ++ sight) n) :
    (func ps t).WellBuilt sight n := by
  refine ⟨.func distinct new h.closed, .func h.kinded, ?_⟩
  intro b hb
  rcases List.mem_append.mp hb with hb | hb
  · exact below b hb
  · exact h.below b hb

theorem WellBuilt.func₁ (hsight : ∀ b ∈ sight, b < n) (hnk : n < k)
    (h : t.WellBuilt (n :: sight) k) : (Term.func [n] t).WellBuilt sight k := by
  refine .func (List.nodup_singleton n) ?_ ?_ h
  · intro p hp hmem
    obtain rfl := List.mem_singleton.mp hp
    exact Nat.lt_irrefl p (hsight p hmem)
  · intro p hp
    obtain rfl := List.mem_singleton.mp hp
    exact hnk

/-! ## Numbers drawn on the way -/

/-- Numbers that were drawn, each once, while the counter went from `n` to `k`. -/
structure Drawn (n k : Nat) (ids : List Nat) : Prop where
  le : n ≤ k
  nodup : ids.Nodup
  bounds : ∀ b ∈ ids, n ≤ b ∧ b < k

theorem Drawn.nil (h : n ≤ k) : Drawn n k [] := ⟨h, List.nodup_nil, by simp⟩

theorem Drawn.append {m : Nat} {ids ids' : List Nat} (h : Drawn n m ids) (h' : Drawn m k ids') :
    Drawn n k (ids ++ ids') := by
  have hnm := h.le
  have hmk := h'.le
  refine ⟨Nat.le_trans hnm hmk, h.nodup.append h'.nodup fun b hb hb' => ?_, fun b hb => ?_⟩
  · have hlt := (h.bounds b hb).2
    have hle := (h'.bounds b hb').1
    omega
  · rcases List.mem_append.mp hb with hb | hb
    · have := h.bounds b hb
      omega
    · have := h'.bounds b hb
      omega

theorem Drawn.cons {ids : List Nat} (h : Drawn (n + 1) k ids) : Drawn n k (n :: ids) := by
  have hn : Drawn n (n + 1) [n] := ⟨Nat.le_succ n, List.nodup_singleton n, by simp⟩
  exact hn.append h

/-- Closed terms over variables that were drawn for them. -/
structure Fresh (n k : Nat) (ts : List Term) : Prop where
  wellBuilt : ∀ t ∈ ts, t.WellBuilt [] k
  drawn : Drawn n k (ts.flatMap binders)

theorem Fresh.append {m : Nat} {ts us : List Term} (ht : Fresh n m ts) (hu : Fresh m k us) :
    Fresh n k (ts ++ us) := by
  constructor
  · rw [List.forall_mem_append]
    exact ⟨fun t h => (ht.wellBuilt t h).mono hu.drawn.le, hu.wellBuilt⟩
  · rw [List.flatMap_append]
    exact ht.drawn.append hu.drawn

theorem Fresh.cons {m : Nat} {ts : List Term} (ht : Fresh n m [t]) (hts : Fresh m k ts) :
    Fresh n k (t :: ts) :=
  ht.append hts

/-- Terms without functions draw nothing. -/
theorem Fresh.static {ts : List Term} (h : ∀ t ∈ ts, t.WellBuilt [] n)
    (hb : ∀ t ∈ ts, t.binders = []) : Fresh n n ts :=
  ⟨h, by rw [List.flatMap_eq_nil_iff.mpr hb]; exact .nil (Nat.le_refl n)⟩

theorem Fresh.func₁ (h : t.WellBuilt [n] k) (hdrawn : Drawn (n + 1) k t.binders) :
    Fresh n k [.func [n] t] := by
  constructor
  · rw [List.forall_mem_singleton]
    exact .func₁ (by simp) hdrawn.le h
  · simpa using hdrawn.cons

theorem Fresh.func₂ (h : t.WellBuilt [n, n + 1] k) (hdrawn : Drawn (n + 2) k t.binders) :
    Fresh n k [.func [n, n + 1] t] := by
  have hk := hdrawn.le
  constructor
  · rw [List.forall_mem_singleton]
    refine .func (by simp) (by simp) ?_ h
    intro p hp
    simp only [List.mem_cons, List.not_mem_nil, or_false] at hp
    omega
  · simpa using hdrawn.cons.cons

/-- What a step makes of the term of a pipeline: a term around it whose other
parts are fresh. -/
structure Extends (n k : Nat) (t t' : Term) : Prop where
  wellBuilt : t.WellBuilt [] n → t'.WellBuilt [] k
  binders_eq : ∃ ids, t'.binders = t.binders ++ ids ∧ Drawn n k ids

theorem Extends.refl (n : Nat) (t : Term) : Extends n n t t :=
  ⟨id, [], (List.append_nil _).symm, .nil (Nat.le_refl n)⟩

theorem Extends.trans {m : Nat} {t' t'' : Term} (h : Extends n m t t') (h' : Extends m k t' t'') :
    Extends n k t t'' := by
  obtain ⟨ids, heq, hids⟩ := h.binders_eq
  obtain ⟨ids', heq', hids'⟩ := h'.binders_eq
  refine ⟨fun ht => h'.wellBuilt (h.wellBuilt ht), ids ++ ids', ?_, hids.append hids'⟩
  rw [heq', heq, List.append_assoc]

instance {m : Nat} : Trans (Extends n m) (Extends m k) (Extends n k) := ⟨Extends.trans⟩

theorem Extends.op {kind : Kind} {ts : List Term} {os : List (String × Term)}
    (generic : kind.isGeneric) (h : Fresh n k (ts ++ os.map (·.2))) :
    Extends n k t (.op kind (t :: ts) os) := by
  constructor
  · intro ht
    obtain ⟨hts, hos⟩ := List.forall_mem_append.mp h.wellBuilt
    rw [wellBuilt_op, List.forall_mem_cons]
    exact ⟨generic, ⟨ht.mono h.drawn.le, hts⟩, fun o ho => hos o.2 (List.mem_map_of_mem ho)⟩
  · refine ⟨_, ?_, h.drawn⟩
    rw [binders_op, List.flatMap_cons, List.flatMap_append, List.append_assoc]

theorem Extends.call {kind : Kind} {ts : List Term} (generic : kind.isGeneric)
    (h : Fresh n k ts) : Extends n k t (.call kind (t :: ts)) :=
  .op generic (by simpa using h)

/-- New numbers do not meet old ones: those are below `n`, these are not. -/
theorem Extends.nodup {t' : Term} (h : Extends n k t t') (ht : t.WellBuilt [] n)
    (hnodup : t.binders.Nodup) : t'.binders.Nodup := by
  obtain ⟨ids, heq, hids⟩ := h.binders_eq
  rw [heq]
  refine hnodup.append hids.nodup fun b hb hb' => ?_
  have hlt := ht.below b hb
  have hle := (hids.bounds b hb').1
  omega

end Term

end DocQuery
