import DocQuery.Proofs.Wire.Reading
import Mathlib.Data.List.Induction

/-!
# Optional arguments on the wire

An operation keeps all that is attached to it. Looking a key up finds the first
value under it, while the object on the wire holds the last one. So both show the
same keys, and they agree on a value exactly where the first and the last have
one wire form, as they have for a key that is attached once.
-/

namespace DocQuery

/-! ## The values under a key -/

namespace Entries

variable {α β : Type}

/-- Every value under a key, in the order of the entries. -/
def valuesAt (key : String) (es : Entries α) : List α :=
  (es.filter fun e => e.1 = key).map (·.2)

theorem valuesAt_cons (key : String) (e : String × α) (es : Entries α) :
    valuesAt key (e :: es) =
      if e.1 = key then e.2 :: valuesAt key es else valuesAt key es := by
  by_cases hk : e.1 = key <;> simp [valuesAt, hk]

theorem valuesAt_concat (key : String) (es : Entries α) (e : String × α) :
    valuesAt key (es ++ [e]) =
      if e.1 = key then valuesAt key es ++ [e.2] else valuesAt key es := by
  by_cases hk : e.1 = key <;> simp [valuesAt, hk]

theorem get?_eq_head? (key : String) (es : Entries α) :
    get? key es = (valuesAt key es).head? := by
  induction es with
  | nil => rfl
  | cons e rest ih =>
      rw [get?, valuesAt_cons, ih]
      split <;> rfl

theorem get?_map (f : α → β) (key : String) (es : Entries α) :
    get? key (es.map fun e => (e.1, f e.2)) = (get? key es).map f := by
  induction es with
  | nil => rfl
  | cons e rest ih =>
      rw [List.map_cons, get?, get?, ih]
      split <;> rfl

/-- A value that is put replaces the one before, so of all pairs the last is found. -/
theorem get?_ofPairs (key : String) (ps : List (String × α)) :
    get? key (ofPairs ps) = (valuesAt key ps).getLast? := by
  -- from the end: it is the last pair that decides, whatever was put before
  induction ps using List.reverseRecOn with
  | nil => rfl
  | append_singleton ps p ih =>
      have hput : ofPairs (ps ++ [p]) = put p.1 p.2 (ofPairs ps) := List.foldl_append
      rw [hput, get?_put, valuesAt_concat, ih]
      split
      · rw [List.getLast?_concat]
      · rfl

end Entries

/-! ## Both ways to look an optional argument up -/

/-- What the wire form of an operation shows under a key: a field of the third
element, if there is one. -/
def Json.optarg? (key : String) : Json → Option Json
  | .array items => items[2]?.bind (field? key)
  | _ => none

namespace Term

/-- Attaches optional arguments one after another. -/
def withOptargs (t : Term) (attached : List (String × Term)) : Term :=
  attached.foldl (fun t o => t.withOptarg o.1 o.2) t

theorem withOptargs_op (k : Kind) (args : List Term) (os attached : List (String × Term)) :
    (op k args os).withOptargs attached = op k args (os ++ attached) := by
  induction attached generalizing os with
  | nil => rw [List.append_nil]; rfl
  | cons o rest ih =>
      have hstep : (op k args os).withOptargs (o :: rest) =
          (op k args (os ++ [o])).withOptargs rest := rfl
      rw [hstep, ih, List.append_assoc, List.singleton_append]

theorem optarg?_wire_op (k : Kind) (args : List Term) (os : List (String × Term)) (key : String) :
    (op k args os).wire.optarg? key = (Entries.valuesAt key os).getLast?.map wire := by
  cases os with
  | nil => rfl
  | cons o os =>
      show Entries.get? key (Entries.ofPairs (wireEntries (o :: os))) = _
      rw [wireEntries_eq_map, Entries.ofPairs_map, Entries.get?_map, Entries.get?_ofPairs]

end Term

/-! ## Where they agree -/

theorem map_getLast?_eq_map_head?_iff {α β : Type} (f : α → β) (xs : List α) :
    xs.getLast?.map f = xs.head?.map f ↔
      ∀ first ∈ xs.head?, ∀ last ∈ xs.getLast?, f first = f last := by
  constructor
  · intro h first hfirst last hlast
    rw [Option.mem_def.mp hfirst, Option.mem_def.mp hlast] at h
    exact (Option.some.inj h).symm
  · intro h
    cases xs with
    | nil => rfl
    | cons x rest =>
        have hlast := List.getLast?_eq_some_getLast (List.cons_ne_nil x rest)
        rw [hlast]
        exact congrArg some (h x rfl _ hlast).symm

/-- Looking a key up in an operation finds the first value that was attached under
it, and the wire form shows the last. So they show the same keys, and agree on the
value exactly if these two have one wire form; with one value they are the same. -/
theorem optarg_agrees_iff (k : Term.Kind) (args : List Term)
    (os attached : List (String × Term)) (key : String) :
    let t := (Term.op k args os).withOptargs attached
    let values := Entries.valuesAt key (os ++ attached)
    t.optarg? key = values.head? ∧
      t.wire.optarg? key = values.getLast?.map Term.wire ∧
      (t.optarg? key = none ↔ t.wire.optarg? key = none) ∧
      (t.wire.optarg? key = (t.optarg? key).map Term.wire ↔
        ∀ first ∈ values.head?, ∀ last ∈ values.getLast?, first.wire = last.wire) ∧
      (values.length ≤ 1 → t.wire.optarg? key = (t.optarg? key).map Term.wire) := by
  intro t values
  have ht : t = .op k args (os ++ attached) := Term.withOptargs_op k args os attached
  have hterm : t.optarg? key = values.head? := by
    rw [ht]
    exact Entries.get?_eq_head? key (os ++ attached)
  have hwire : t.wire.optarg? key = values.getLast?.map Term.wire := by
    rw [ht]
    exact Term.optarg?_wire_op k args (os ++ attached) key
  refine ⟨hterm, hwire, ?_, ?_, fun hone => ?_⟩
  · rw [hterm, hwire, List.head?_eq_none_iff, Option.map_eq_none_iff,
      List.getLast?_eq_none_iff]
  · rw [hterm, hwire]
    exact map_getLast?_eq_map_head?_iff Term.wire values
  · rw [hterm, hwire]
    match values, hone with
    | [], _ => rfl
    | [_], _ => rfl

/-- An insert with three options, the first of which is given anew. -/
theorem optarg_agrees_iff_of_insert :
    let update := Term.string "update"
    let replace := Term.string "replace"
    let attached :=
      [("conflict", update), ("durability", Term.string "soft"), ("conflict", replace)]
    let insert := (Term.table none "posts").insert (.datum (.object [("id", .int 1)]))
    let t := insert.withOptargs attached
    (Entries.valuesAt "durability" attached).length ≤ 1 ∧
      t.wire.optarg? "durability" = (t.optarg? "durability").map Term.wire ∧
      t.wire.optarg? "return_changes" = none ∧
      update.wire ≠ replace.wire ∧
      t.wire.optarg? "conflict" ≠ (t.optarg? "conflict").map Term.wire := by
  intro update replace attached insert t
  have honce : (Entries.valuesAt "durability" attached).length ≤ 1 := by decide
  have hdiffer : update.wire ≠ replace.wire := by
    intro h
    exact absurd (Json.string.inj h) (by decide)
  obtain ⟨-, -, -, -, hdurability⟩ := optarg_agrees_iff .insert insert.args [] attached "durability"
  obtain ⟨-, -, hchanges, -, -⟩ := optarg_agrees_iff .insert insert.args [] attached "return_changes"
  obtain ⟨-, -, -, hconflict, -⟩ := optarg_agrees_iff .insert insert.args [] attached "conflict"
  refine ⟨honce, hdurability honce, hchanges.mp rfl, hdiffer, fun h => ?_⟩
  exact hdiffer (hconflict.mp h update rfl replace rfl)

/-- An insert that is told to update on a conflict and then to replace sends the
one and answers the other. -/
theorem overridden_optarg_not_shown :
    let update := Term.string "update"
    let insert := (Term.table none "posts").insert (.datum (.object [("id", .int 1)]))
    let t := (insert.withOptarg "conflict" update).withOptarg "conflict" (.string "replace")
    t.optarg? "conflict" = some update ∧
      t.wire.optarg? "conflict" = some (.string "replace") ∧
      ¬ (t.optarg? "conflict" = some update ↔ t.wire.optarg? "conflict" = some update.wire) := by
  intro update insert t
  have hfound : t.optarg? "conflict" = some update := rfl
  have hshown : t.wire.optarg? "conflict" = some (.string "replace") := rfl
  refine ⟨hfound, hshown, fun h => ?_⟩
  have hsame := Option.some.inj (hshown.symm.trans (h.mp hfound))
  exact absurd (Json.string.inj hsame) (by decide)

end DocQuery
