import DocQuery.Proofs.Hygiene.Compiler

/-!
# The wire form is unambiguous

Whatever a compiler builds is read back off the wire up to `Term.norm`, and data
in it are read back as data: a parameter that looks like an operation is not
one.
-/

namespace DocQuery

open Compile Term

namespace Compiler

variable {c : Compiler} {t : Term}

theorem wellKinded_compileQuery {q : Query} {params : Params}
    (h : c.compileQuery q params = .ok t) : t.WellKinded := by
  obtain ⟨k, hk⟩ := outcome_eq_ok.mp h
  exact (wellBuilt_query hk).kinded

/-- The options of a write are data, so they change nothing in this. -/
theorem wellKinded_withWriteOptions {isInsert : Bool} {kind : Kind} {args : List Term}
    (h : (call kind args).WellBuilt [] 1) :
    (c.config.withWriteOptions isInsert (call kind args)).WellKinded := by
  obtain ⟨os, hos, heq⟩ := c.config.withWriteOptions_call isInsert kind
  obtain ⟨generic, hargs⟩ := wellBuilt_call.mp h
  rw [heq]
  refine .op generic (fun t ht => (hargs t ht).kinded) fun o ho => ?_
  obtain ⟨v, hv⟩ := hos o ho
  rw [hv]
  exact .datum v

theorem wellKinded_compileWrite {w : Write} (h : c.compileWrite w = .ok t) : t.WellKinded := by
  have htable (name : String) : (table c.config.database name).WellBuilt [] 1 :=
    Pipeline.wellBuilt_table _ _
  have hget (name : String) (key : Json) :
      ((table c.config.database name).get (.datum key)).WellBuilt [] 1 := by
    simp [Term.get, Kind.isGeneric, htable]
  cases w with
  | insert name fields | insertAll name rows =>
      cases h
      exact wellKinded_withWriteOptions (by simp [Kind.isGeneric, htable])
  | update name key fields | delete name key =>
      cases h
      exact wellKinded_withWriteOptions (by simp [Kind.isGeneric, hget])
  | updateAll q params updates =>
      obtain ⟨k, hk⟩ := outcome_eq_ok.mp h
      exact ((extends_updateAll hk).wellBuilt (Pipeline.wellBuilt_table _ _)).kinded
  | deleteAll q params =>
      obtain ⟨k, hk⟩ := outcome_eq_ok.mp h
      exact ((extends_deleteAll hk).wellBuilt (Pipeline.wellBuilt_table _ _)).kinded

end Compiler

/-- A term whose operations are all of generic kinds, as in everything that a
compiler builds, is read back up to its normal form. So two of them have the same
JSON, with keys in order, exactly when they have the same normal form. A value is
read back as a literal. -/
theorem wire_unambiguous :
    (∀ t : Term, t.WellKinded → ofWire? t.wire = some t.norm) ∧
    (∀ t u : Term, t.WellKinded → u.WellKinded → (t.wire = u.wire ↔ t.norm = u.norm)) ∧
    (∀ v : Json, ofWire? (datum v).wire = some (datum v).norm ∧ (datum v).norm.IsLiteral) ∧
    (∀ (c : Compiler) (q : Query) (params : Params) (t : Term),
      c.compileQuery q params = .ok t → t.WellKinded) ∧
    (∀ (c : Compiler) (w : Write) (t : Term), c.compileWrite w = .ok t → t.WellKinded) :=
  ⟨fun _ => ofWire?_wire, fun _ _ => wire_eq_wire_iff,
    fun v => ⟨ofWire?_wire_datum v, isLiteral_toTerm v⟩,
    fun _ _ _ _ => Compiler.wellKinded_compileQuery,
    fun _ _ _ => Compiler.wellKinded_compileWrite⟩

/-- A field that holds the JSON of a delete is inserted as a list. -/
theorem wire_unambiguous_of_delete_in_field :
    let posts : Term := table none "posts"
    let field : Fields := [("x", posts.delete.wire)]
    ∃ t u : Term, ({} : Compiler).compileWrite (.insert "posts" field) = .ok t ∧
      ({} : Compiler).compileQuery { source := ⟨"posts", none⟩ } [] = .ok u ∧
      ofWire? t.wire = some t.norm ∧ t.wire ≠ u.wire ∧
        (datum (posts.delete.wire)).norm.IsLiteral := by
  intro posts field
  obtain ⟨hread, hiff, hdata, hquery, hwrite⟩ := wire_unambiguous
  have ht := hwrite {} (.insert "posts" field) _ rfl
  have hu := hquery {} { source := ⟨"posts", none⟩ } [] _ rfl
  refine ⟨_, _, rfl, rfl, hread _ ht, fun heq => ?_, (hdata _).2⟩
  cases (hiff _ _ ht hu).mp heq

end DocQuery
