import DocQuery.Term.Wire

/-!
# Reading terms off the wire

The wire form loses nothing but the difference between a datum and an array or
object that is built from data, and the values that a later entry replaces.
`Term.norm` forgets exactly this, and `ofWire?_wire` reads the rest back.
-/

namespace DocQuery

/-! ## Entries -/

namespace Entries

variable {α β : Type}

theorem put_map (f : α → β) (key : String) (value : α) (es : Entries α) :
    put key (f value) (es.map fun e => (e.1, f e.2)) =
      (put key value es).map fun e => (e.1, f e.2) := by
  induction es with
  | nil => rfl
  | cons e rest ih =>
      obtain ⟨k, v⟩ := e
      by_cases hk : k = key
      · simp [put, hk]
      · simp [put, hk, ih]

theorem foldl_put_map (f : α → β) (ps : List (String × α)) (es : Entries α) :
    (ps.map fun e => (e.1, f e.2)).foldl (fun es p => put p.1 p.2 es)
        (es.map fun e => (e.1, f e.2)) =
      (ps.foldl (fun es p => put p.1 p.2 es) es).map fun e => (e.1, f e.2) := by
  induction ps generalizing es with
  | nil => rfl
  | cons p rest ih =>
      rw [List.map_cons, List.foldl_cons, List.foldl_cons, ← ih, ← put_map]

/-- Which values are replaced depends on the keys alone. -/
theorem ofPairs_map (f : α → β) (ps : List (String × α)) :
    ofPairs (ps.map fun e => (e.1, f e.2)) = (ofPairs ps).map fun e => (e.1, f e.2) :=
  foldl_put_map f ps []

theorem mem_put {p : String × α} {key : String} {value : α} {es : Entries α}
    (h : p ∈ put key value es) : p = (key, value) ∨ p ∈ es := by
  induction es with
  | nil => exact Or.inl (List.mem_singleton.mp h)
  | cons e rest ih =>
      obtain ⟨k, v⟩ := e
      by_cases hk : k = key
      · subst hk
        simp only [put, if_true, List.mem_cons] at h ⊢
        exact h.imp_right Or.inr
      · simp only [put, if_neg hk, List.mem_cons] at h ⊢
        rcases h with h | h
        · exact Or.inr (Or.inl h)
        · exact (ih h).imp_right Or.inr

theorem mem_foldl_put {p : String × α} {ps : List (String × α)} {es : Entries α}
    (h : p ∈ ps.foldl (fun es p => put p.1 p.2 es) es) : p ∈ ps ∨ p ∈ es := by
  induction ps generalizing es with
  | nil => exact Or.inr h
  | cons q rest ih =>
      rcases ih h with h | h
      · exact Or.inl (List.mem_cons_of_mem q h)
      · rcases mem_put h with rfl | h
        · exact Or.inl List.mem_cons_self
        · exact Or.inr h

theorem mem_of_mem_ofPairs {p : String × α} {ps : List (String × α)} (h : p ∈ ofPairs ps) :
    p ∈ ps :=
  (mem_foldl_put h).resolve_right List.not_mem_nil

theorem put_ne_nil (key : String) (value : α) (es : Entries α) : put key value es ≠ [] := by
  cases es with
  | nil => simp [put]
  | cons e rest =>
      rw [put]
      split <;> simp

theorem foldl_put_ne_nil {ps : List (String × α)} {es : Entries α} (h : es ≠ []) :
    ps.foldl (fun es p => put p.1 p.2 es) es ≠ [] := by
  induction ps generalizing es with
  | nil => exact h
  | cons p rest ih => exact ih (put_ne_nil p.1 p.2 es)

theorem ofPairs_cons_ne_nil (p : String × α) (ps : List (String × α)) : ofPairs (p :: ps) ≠ [] :=
  @foldl_put_ne_nil _ ps _ (put_ne_nil p.1 p.2 [])

end Entries

/-! ## Normal terms -/

mutual

/-- The term that builds a value out of scalars. -/
def Json.toTerm : Json → Term
  | .array items => .makeArray (toTerms items)
  | .object fields => .makeObject (toEntries fields)
  | v => .datum v

def Json.toTerms : List Json → List Term
  | [] => []
  | v :: rest => v.toTerm :: toTerms rest

def Json.toEntries : List (String × Json) → List (String × Term)
  | [] => []
  | (k, v) :: rest => (k, v.toTerm) :: toEntries rest

end

namespace Term

mutual

/-- A term without what the wire form does not keep: data are built out of
scalars, and a repeated key has its first place and its last value. -/
def norm : Term → Term
  | .datum v => v.toTerm
  | .makeArray items => .makeArray (normAll items)
  | .makeObject entries => .makeObject (Entries.ofPairs (normEntries entries))
  | .var id => .var id
  | .func params body => .func params body.norm
  | .op k args optargs => .op k (normAll args) (Entries.ofPairs (normEntries optargs))

def normAll : List Term → List Term
  | [] => []
  | t :: rest => t.norm :: normAll rest

def normEntries : List (String × Term) → List (String × Term)
  | [] => []
  | (k, t) :: rest => (k, t.norm) :: normEntries rest

end

/-- Not one of the kinds that have a form of their own. -/
def Kind.isGeneric : Kind → Bool
  | .datum | .makeArray | .makeObject | .var | .func => false
  | _ => true

/-- Every operation in the tree is of a generic kind. -/
inductive WellKinded : Term → Prop
  | datum (v : Json) : WellKinded (.datum v)
  | makeArray {ts : List Term} (items : ∀ t ∈ ts, WellKinded t) : WellKinded (.makeArray ts)
  | makeObject {es : List (String × Term)} (entries : ∀ e ∈ es, WellKinded e.2) :
      WellKinded (.makeObject es)
  | var (id : Nat) : WellKinded (.var id)
  | func {ps : List Nat} {t : Term} (body : WellKinded t) : WellKinded (.func ps t)
  | op {k : Kind} {ts : List Term} {os : List (String × Term)} (generic : k.isGeneric)
      (args : ∀ t ∈ ts, WellKinded t) (optargs : ∀ o ∈ os, WellKinded o.2) :
      WellKinded (.op k ts os)

/-- Built from scalars, arrays and objects: nothing in it is run. -/
inductive IsLiteral : Term → Prop
  | null : IsLiteral (.datum .null)
  | bool (b : Bool) : IsLiteral (.datum (.bool b))
  | number (n : Number) : IsLiteral (.datum (.number n))
  | string (s : String) : IsLiteral (.datum (.string s))
  | array {ts : List Term} (items : ∀ t ∈ ts, IsLiteral t) : IsLiteral (.makeArray ts)
  | object {es : List (String × Term)} (fields : ∀ e ∈ es, IsLiteral e.2) :
      IsLiteral (.makeObject es)

/-! ## The reader -/

/-- The numbers among the arguments of a function. -/
def paramId? : Term → Option Nat
  | .datum (.number (.int (.ofNat n))) => some n
  | _ => none

/-- The node of a kind over what was read below it. -/
def ofParts? (k : Kind) (args : List Term) (optargs : List (String × Term)) : Option Term :=
  match k, args, optargs with
  | .makeArray, items, [] => some (.makeArray items)
  | .var, [id], [] => (paramId? id).map .var
  | .func, [.makeArray ids, body], [] => (ids.mapM paramId?).map fun ps => .func ps body
  | k, args, optargs => if k.isGeneric then some (.op k args optargs) else none

def kindOfCode? : Int → Option Kind
  | .ofNat n => Kind.ofCode? n
  | .negSucc _ => none

mutual

/-- Reads a scalar as a datum, an object entry by entry and any array as the
operation that its first item names. -/
def ofWire? : Json → Option Term
  | .array [.number (.int code), .array args] => do
    ofParts? (← kindOfCode? code) (← readAll args) []
  | .array [.number (.int code), .array args, .object optargs] => do
    ofParts? (← kindOfCode? code) (← readAll args) (← readEntries optargs)
  | .array _ => none
  | .object fields => do return .makeObject (← readEntries fields)
  | v => some (.datum v)

def readAll : List Json → Option (List Term)
  | [] => some []
  | v :: rest => do return (← ofWire? v) :: (← readAll rest)

def readEntries : List (String × Json) → Option (List (String × Term))
  | [] => some []
  | (k, v) :: rest => do return (k, ← ofWire? v) :: (← readEntries rest)

end

example : ofWire? (.array [.int 10, .array [.int 4]]) = some (.var 4) := rfl

end Term

/-! ## One level at a time -/

namespace Json

theorem wireItems_eq_map (vs : List Json) : wireItems vs = vs.map wire := by
  induction vs with
  | nil => rfl
  | cons v rest ih => rw [wireItems, List.map_cons, ih]

theorem wireFields_eq_map (fields : List (String × Json)) :
    wireFields fields = fields.map fun e => (e.1, e.2.wire) := by
  induction fields with
  | nil => rfl
  | cons e rest ih => rw [wireFields, List.map_cons, ih]

theorem toTerms_eq_map (vs : List Json) : toTerms vs = vs.map toTerm := by
  induction vs with
  | nil => rfl
  | cons v rest ih => rw [toTerms, List.map_cons, ih]

theorem toEntries_eq_map (fields : List (String × Json)) :
    toEntries fields = fields.map fun e => (e.1, e.2.toTerm) := by
  induction fields with
  | nil => rfl
  | cons e rest ih => rw [toEntries, List.map_cons, ih]

/-- Induction over a value with the hypothesis for every item and field. -/
@[elab_as_elim]
theorem inductionOnItems {motive : Json → Prop} (null : motive .null)
    (bool : ∀ b, motive (.bool b)) (number : ∀ n, motive (.number n))
    (string : ∀ s, motive (.string s)) (array : ∀ vs, (∀ v ∈ vs, motive v) → motive (.array vs))
    (object : ∀ fields, (∀ e ∈ fields, motive e.2) → motive (.object fields)) :
    ∀ v, motive v
  | .null => null
  | .bool b => bool b
  | .number n => number n
  | .string s => string s
  | .array vs => array vs fun v _ => inductionOnItems null bool number string array object v
  | .object fields =>
    object fields fun e _ => inductionOnItems null bool number string array object e.2
termination_by v => sizeOf v
decreasing_by
  · have h := List.sizeOf_lt_of_mem ‹_ ∈ vs›
    simp only [Json.array.sizeOf_spec]
    omega
  · have h := List.sizeOf_lt_of_mem ‹_ ∈ fields›
    obtain ⟨k, v⟩ := e
    simp only [Json.object.sizeOf_spec, Prod.mk.sizeOf_spec] at h ⊢
    omega

end Json

namespace Term

theorem normAll_eq_map (ts : List Term) : normAll ts = ts.map norm := by
  induction ts with
  | nil => rfl
  | cons t rest ih => rw [normAll, List.map_cons, ih]

theorem normEntries_eq_map (es : List (String × Term)) :
    normEntries es = es.map fun e => (e.1, e.2.norm) := by
  induction es with
  | nil => rfl
  | cons e rest ih => rw [normEntries, List.map_cons, ih]

theorem readAll_map {α : Type} {f : α → Json} {g : α → Term} {xs : List α}
    (h : ∀ x ∈ xs, ofWire? (f x) = some (g x)) : readAll (xs.map f) = some (xs.map g) := by
  induction xs with
  | nil => rfl
  | cons x rest ih =>
      rw [List.forall_mem_cons] at h
      simp [readAll, h.1, ih h.2]

theorem readEntries_map {α : Type} {f : α → Json} {g : α → Term} {es : List (String × α)}
    (h : ∀ e ∈ es, ofWire? (f e.2) = some (g e.2)) :
    readEntries (es.map fun e => (e.1, f e.2)) = some (es.map fun e => (e.1, g e.2)) := by
  induction es with
  | nil => rfl
  | cons e rest ih =>
      rw [List.forall_mem_cons] at h
      simp [readEntries, h.1, ih h.2]

/-- Replaced values are not on the wire, so they need not be readable to the
same effect. -/
theorem readEntries_wireEntries {es : List (String × Term)}
    (h : ∀ e ∈ es, ofWire? e.2.wire = some e.2.norm) :
    readEntries (Entries.ofPairs (wireEntries es)) =
      some (Entries.ofPairs (normEntries es)) := by
  rw [wireEntries_eq_map, normEntries_eq_map, Entries.ofPairs_map, Entries.ofPairs_map]
  exact readEntries_map fun e he => h e (Entries.mem_of_mem_ofPairs he)

theorem mapM_paramId? (ps : List Nat) :
    (ps.map fun (p : Nat) => Term.datum (.int p)).mapM paramId? = some ps := by
  induction ps with
  | nil => rfl
  | cons p rest ih =>
      rw [List.map_cons, List.mapM_cons, ih]
      rfl

theorem kindOfCode?_code (k : Kind) : kindOfCode? k.code = some k := Kind.ofCode?_code k

theorem ofParts?_of_isGeneric {k : Kind} (hk : k.isGeneric) (args : List Term)
    (optargs : List (String × Term)) : ofParts? k args optargs = some (.op k args optargs) := by
  cases k with
  | datum | makeArray | makeObject | var | func => exact absurd hk Bool.false_ne_true
  | _ => rfl

/-! ## Round trip -/

/-- A value is read back as the term that builds it. -/
theorem ofWire?_wire_datum (v : Json) : ofWire? v.wire = some v.toTerm := by
  induction v using Json.inductionOnItems with
  | null | bool | number | string => rfl
  | array vs ih =>
      have h : readAll (Json.wireItems vs) = some (Json.toTerms vs) := by
        rw [Json.wireItems_eq_map, Json.toTerms_eq_map]
        exact readAll_map ih
      simp only [Json.wire, Json.int, ofWire?, kindOfCode?_code, h]
      rfl
  | object fields ih =>
      have h : readEntries (Json.wireFields fields) = some (Json.toEntries fields) := by
        rw [Json.wireFields_eq_map, Json.toEntries_eq_map]
        exact readEntries_map ih
      simp only [Json.wire, ofWire?, h]
      rfl

theorem isLiteral_toTerm (v : Json) : v.toTerm.IsLiteral := by
  induction v using Json.inductionOnItems with
  | null => exact .null
  | bool b => exact .bool b
  | number n => exact .number n
  | string s => exact .string s
  | array vs ih =>
      refine .array fun t ht => ?_
      rw [Json.toTerms_eq_map] at ht
      obtain ⟨v, hv, rfl⟩ := List.mem_map.mp ht
      exact ih v hv
  | object fields ih =>
      refine .object fun e he => ?_
      rw [Json.toEntries_eq_map] at he
      obtain ⟨f, hf, rfl⟩ := List.mem_map.mp he
      exact ih f hf

theorem ofWire?_wire {t : Term} (h : t.WellKinded) : ofWire? t.wire = some t.norm := by
  induction h with
  | datum v => exact ofWire?_wire_datum v
  | @makeArray ts _ ih =>
      have hts : readAll (wireAll ts) = some (normAll ts) := by
        rw [wireAll_eq_map, normAll_eq_map]
        exact readAll_map ih
      simp only [wire, Json.int, ofWire?, kindOfCode?_code, hts]
      rfl
  | makeObject _ ih =>
      simp only [wire, ofWire?, readEntries_wireEntries ih]
      rfl
  | var id => rfl
  | @func ps t _ ih =>
      have hps : readAll (ps.map fun (p : Nat) => Json.int p) =
          some (ps.map fun (p : Nat) => Term.datum (.int p)) :=
        readAll_map fun p _ => rfl
      -- the parameters are on the wire as an array of numbers, so they are read first
      have hparams : ofWire? (.array [.int Kind.makeArray.code,
          .array (ps.map fun (p : Nat) => Json.int p)]) =
          some (.makeArray (ps.map fun (p : Nat) => Term.datum (.int p))) := by
        simp only [Json.int, ofWire?, kindOfCode?_code] at hps ⊢
        rw [hps]
        rfl
      simp only [wire]
      rw [Json.int, ofWire?, kindOfCode?_code, readAll, readAll, readAll, hparams, ih]
      show (List.mapM paramId? _).map _ = _
      rw [mapM_paramId?]
      rfl
  | @op k ts os generic _ _ ihArgs ihOptargs =>
      have hts : readAll (wireAll ts) = some (normAll ts) := by
        rw [wireAll_eq_map, normAll_eq_map]
        exact readAll_map ihArgs
      cases os with
      | nil =>
          simp only [wire, Json.int, ofWire?, kindOfCode?_code, hts]
          exact ofParts?_of_isGeneric generic _ _
      | cons o os =>
          have hos := readEntries_wireEntries ihOptargs
          simp only [wire, Json.int, ofWire?, kindOfCode?_code, hts, hos]
          exact ofParts?_of_isGeneric generic _ _

/-! ## What the wire form keeps -/

mutual

/-- The JSON of a term with its data and entries as they stand. -/
def verbatim : Term → Json
  | .datum v => v
  | .makeArray items => .array [.int Kind.makeArray.code, .array (verbatimAll items)]
  | .makeObject entries => .object (verbatimEntries entries)
  | .var id => .array [.int Kind.var.code, .array [.int id]]
  | .func params body =>
    .array [.int Kind.func.code, .array
      [.array [.int Kind.makeArray.code, .array (params.map fun (p : Nat) => Json.int p)],
        body.verbatim]]
  | .op k args [] => .array [.int k.code, .array (verbatimAll args)]
  | .op k args (o :: os) =>
    .array [.int k.code, .array (verbatimAll args), .object (verbatimEntries (o :: os))]

def verbatimAll : List Term → List Json
  | [] => []
  | t :: rest => t.verbatim :: verbatimAll rest

def verbatimEntries : List (String × Term) → List (String × Json)
  | [] => []
  | (k, t) :: rest => (k, t.verbatim) :: verbatimEntries rest

end

theorem verbatimAll_map {α : Type} {f : α → Term} {g : α → Json} {xs : List α}
    (h : ∀ x ∈ xs, (f x).verbatim = g x) : verbatimAll (xs.map f) = xs.map g := by
  induction xs with
  | nil => rfl
  | cons x rest ih =>
      rw [List.forall_mem_cons] at h
      rw [List.map_cons, List.map_cons, verbatimAll, h.1, ih h.2]

theorem verbatimEntries_map {α : Type} {f : α → Term} {g : α → Json} {es : List (String × α)}
    (h : ∀ e ∈ es, (f e.2).verbatim = g e.2) :
    verbatimEntries (es.map fun e => (e.1, f e.2)) = es.map fun e => (e.1, g e.2) := by
  induction es with
  | nil => rfl
  | cons e rest ih =>
      rw [List.forall_mem_cons] at h
      rw [List.map_cons, List.map_cons, verbatimEntries, h.1, ih h.2]

theorem verbatimEntries_normEntries {es : List (String × Term)}
    (h : ∀ e ∈ es, e.2.norm.verbatim = e.2.wire) :
    verbatimEntries (Entries.ofPairs (normEntries es)) = Entries.ofPairs (wireEntries es) := by
  rw [wireEntries_eq_map, normEntries_eq_map, Entries.ofPairs_map, Entries.ofPairs_map]
  exact verbatimEntries_map fun e he => h e (Entries.mem_of_mem_ofPairs he)

theorem verbatim_toTerm (v : Json) : v.toTerm.verbatim = v.wire := by
  induction v using Json.inductionOnItems with
  | null | bool | number | string => rfl
  | array vs ih =>
      rw [Json.toTerm, verbatim, Json.wire, Json.toTerms_eq_map, Json.wireItems_eq_map,
        verbatimAll_map ih]
  | object fields ih =>
      rw [Json.toTerm, verbatim, Json.wire, Json.toEntries_eq_map, Json.wireFields_eq_map,
        verbatimEntries_map ih]

/-- Nothing of a term but its normal form is on the wire. -/
theorem verbatim_norm {t : Term} (h : t.WellKinded) : t.norm.verbatim = t.wire := by
  induction h with
  | datum v => exact verbatim_toTerm v
  | makeArray _ ih =>
      rw [norm, verbatim, wire, normAll_eq_map, wireAll_eq_map, verbatimAll_map ih]
  | makeObject _ ih => rw [norm, verbatim, wire, verbatimEntries_normEntries ih]
  | var id => rfl
  | func _ ih => rw [norm, verbatim, wire, ih]
  | @op k ts os _ _ _ ihArgs ihOptargs =>
      have hts : verbatimAll (normAll ts) = wireAll ts := by
        rw [normAll_eq_map, wireAll_eq_map, verbatimAll_map ihArgs]
      cases os with
      | nil =>
          show verbatim (.op k (normAll ts) []) = _
          rw [verbatim, wire, hts]
      | cons o os =>
          have hos := verbatimEntries_normEntries ihOptargs
          -- there is a third element on both sides, since entries are only replaced
          have hne : Entries.ofPairs (normEntries (o :: os)) ≠ [] := Entries.ofPairs_cons_ne_nil _ _
          obtain ⟨p, ps, hps⟩ := List.exists_cons_of_ne_nil hne
          rw [norm, wire, hps, verbatim, hts, ← hps, hos]

theorem wire_eq_wire_iff {t u : Term} (ht : t.WellKinded) (hu : u.WellKinded) :
    t.wire = u.wire ↔ t.norm = u.norm := by
  constructor
  · intro h
    have hread : some t.norm = some u.norm := by rw [← ofWire?_wire ht, ← ofWire?_wire hu, h]
    exact Option.some.inj hread
  · intro h
    rw [← verbatim_norm ht, ← verbatim_norm hu, h]

end Term

end DocQuery
