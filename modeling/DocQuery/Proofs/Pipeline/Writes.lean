import DocQuery.Compiler
import DocQuery.Proofs.Pipeline.Stages

/-!
# What a write is made of

The options of a write and the patch of an update, in terms of the values that
its clauses compile to.
-/

namespace DocQuery

open Compile Term

/-- The options that go with a write, in their order. -/
def Config.writeOptions (c : Config) (isInsert : Bool) : List (String × Term) :=
  (if isInsert ∧ c.conflict ≠ .error then [("conflict", .string c.conflict.name)] else []) ++
    (if c.durability = .soft then [("durability", .string "soft")] else []) ++
    (if c.returnChanges then [("return_changes", .bool true)] else [])

theorem Config.withWriteOptions_eq (c : Config) (isInsert : Bool) (kind : Kind)
    (args : List Term) :
    c.withWriteOptions isInsert (.call kind args) = .op kind args (c.writeOptions isInsert) := by
  have hconflict : (isInsert && c.conflict != .error) = true ↔
      isInsert = true ∧ c.conflict ≠ .error := by simp
  simp only [withWriteOptions, writeOptions, hconflict]
  split_ifs <;> rfl

/-- The options of a write are data and do not depend on what is written. -/
theorem Config.withWriteOptions_call (c : Config) (isInsert : Bool) (kind : Kind) :
    ∃ os : List (String × Term), (∀ o ∈ os, ∃ v, o.2 = .datum v) ∧
      ∀ args, c.withWriteOptions isInsert (.call kind args) = .op kind args os := by
  refine ⟨c.writeOptions isInsert, ?_, c.withWriteOptions_eq isInsert kind⟩
  unfold writeOptions
  split_ifs <;> simp [Term.string, Term.bool]

namespace Write

/-- The operation of the store that a write becomes. -/
def kind : Write → Kind
  | .insert .. | .insertAll .. => .insert
  | .update .. | .updateAll .. => .update
  | .delete .. | .deleteAll .. => .delete

/-- Inserts, the only writes that can be in conflict with a stored document. -/
def isInsert : Write → Bool
  | .insert .. | .insertAll .. => true
  | _ => false

end Write

namespace Expr

theorem yields_compileUpdate {engine : RegexEngine} {params : Params} {row : Term} {e : Expr}
    {entry : String × Term} {n k : Nat} :
    (e.compileUpdate engine params row).Yields n entry k ↔
      ∃ op name v value, e = .update op name v ∧
        (v.compile engine params (.row row 1)).Yields n value k ∧
          entry = (name, patched op (row.bracket name) value) := by
  cases e with
  | update op name v =>
      simp only [compileUpdate, yields_bind, yields_pure]
      constructor
      · rintro ⟨value, j, hv, rfl, rfl⟩
        exact ⟨op, name, v, value, rfl, hv, rfl⟩
      · rintro ⟨_, _, _, value, heq, hv, rfl⟩
        cases heq
        exact ⟨value, k, hv, rfl, rfl⟩
  | _ => simp [compileUpdate]

theorem grows_compileUpdate {engine : RegexEngine} {params : Params} {row : Term} (e : Expr) :
    (e.compileUpdate engine params row).Grows := by
  cases e with
  | update op name v => exact (grows_compile v _).bind fun value => grows_pure _
  | _ => exact grows_throw _

end Expr

namespace Setting

variable {s : Setting} {n k : Nat} {t : Term}

theorem yields_patch {updates : List Expr} {row : Term} :
    (s.patch updates row).Yields n t k ↔
      ∃ entries, YieldsEach (Expr.compileUpdate s.engine s.params row) updates n entries k ∧
        firstRepeat? [] (entries.map (·.1)) = none ∧ t = .makeObject entries := by
  simp only [patch, yields_bind, yields_mapM]
  constructor
  · rintro ⟨entries, j, hentries, ht⟩
    split at ht
    · exact absurd ht not_yields_throw
    · rename_i hnone
      obtain ⟨rfl, rfl⟩ := yields_pure.mp ht
      exact ⟨entries, hentries, hnone, rfl⟩
  · rintro ⟨entries, hentries, hnone, rfl⟩
    refine ⟨entries, k, hentries, ?_⟩
    rw [hnone]
    exact yields_pure.mpr ⟨rfl, rfl⟩

theorem yields_updateAllTerm {p : Pipeline} {updates : List Expr} :
    (s.updateAllTerm p updates).Yields n t k ↔
      updates ≠ [] ∧ ∃ patch, (s.patch updates (.var n)).Yields (n + 1) patch k ∧
        t = s.config.withWriteOptions false (p.term.update (.func [n] patch)) := by
  rw [updateAllTerm]
  cases updates with
  | nil => simp
  | cons u us =>
      simp only [List.isEmpty_cons, Bool.false_eq_true, if_false, yields_bind, yields_lambda,
        yields_pure, ne_eq, reduceCtorEq, not_false_eq_true, true_and]
      constructor
      · rintro ⟨f, j, ⟨patch, hpatch, rfl⟩, rfl, rfl⟩
        exact ⟨patch, hpatch, rfl⟩
      · rintro ⟨patch, hpatch, rfl⟩
        exact ⟨_, k, ⟨patch, hpatch, rfl⟩, rfl, rfl⟩

end Setting

end DocQuery
