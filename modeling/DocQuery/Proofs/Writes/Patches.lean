import DocQuery.Proofs.Simulation
import DocQuery.Proofs.Writes.Clauses
import Mathlib.Data.List.Perm.Basic

/-!
# The operators of an update

A bulk update patches every row by a function of the row, with one entry for each
field operator. An operator reads the parameters and the stored row and draws no
number, so it sees nothing of the operators before it: their order is the order of
the entries and nothing else.
-/

namespace DocQuery

open Compile

namespace Expr

variable {engine : RegexEngine} {params : Params} {row : Term} {e : Expr}

/-- The field that an operator changes. -/
def target? : Expr → Option String
  | .update _ name _ => some name
  | _ => none

/-- The entry of a patch for one operator: its field, and the new value of the field
over what `row` holds. The operand is read from `row` as well. -/
inductive Patches (engine : RegexEngine) (params : Params) (row : Term) :
    Expr → String × Term → Prop
  | set {name : String} {v : Expr} {value : Term}
      (operand : (v.compile engine params (.row row 1)).outcome = .ok value) :
      Patches engine params row (.update .set name v) (name, value)
  | increment {name : String} {v : Expr} {value : Term}
      (operand : (v.compile engine params (.row row 1)).outcome = .ok value) :
      Patches engine params row (.update .increment name v)
        (name, .binary .add (row.bracket name) value)
  | push {name : String} {v : Expr} {value : Term}
      (operand : (v.compile engine params (.row row 1)).outcome = .ok value) :
      Patches engine params row (.update .push name v) (name, (row.bracket name).append value)
  | pull {name : String} {v : Expr} {value : Term}
      (operand : (v.compile engine params (.row row 1)).outcome = .ok value) :
      Patches engine params row (.update .pull name v)
        (name, (row.bracket name).difference (.makeArray [value]))

theorem Patches.target?_eq {entry : String × Term} (h : e.Patches engine params row entry) :
    e.target? = some entry.1 := by
  cases h with
  | set | increment | push | pull => rfl

theorem drawsNothing_compileUpdate (e : Expr) :
    (e.compileUpdate engine params row).DrawsNothing := by
  cases e with
  | update op name v =>
      exact (drawsNothing_compile rfl v).bind fun value => drawsNothing_pure _
  | _ => exact drawsNothing_throw _

theorem outcome_compileUpdate_iff {entry : String × Term} :
    (e.compileUpdate engine params row).outcome = .ok entry ↔
      e.Patches engine params row entry := by
  have hyields : (e.compileUpdate engine params row).Yields 1 entry 1 ↔
      (e.compileUpdate engine params row).outcome = .ok entry :=
    (drawsNothing_compileUpdate e).yields_iff.trans (and_iff_left rfl)
  have hoperand (v : Expr) (value : Term) :
      (v.compile engine params (.row row 1)).Yields 1 value 1 ↔
        (v.compile engine params (.row row 1)).outcome = .ok value :=
    (drawsNothing_compile rfl v).yields_iff.trans (and_iff_left rfl)
  rw [← hyields, yields_compileUpdate]
  constructor
  · rintro ⟨op, name, v, value, rfl, hv, rfl⟩
    have hvalue := (hoperand v value).mp hv
    cases op with
    | set => exact .set hvalue
    | increment => exact .increment hvalue
    | push => exact .push hvalue
    | pull => exact .pull hvalue
  · intro h
    cases h with
    | set operand | increment operand | push operand | pull operand =>
        exact ⟨_, _, _, _, rfl, (hoperand _ _).mpr operand, rfl⟩

/-- Whether an operand can be read from a row does not depend on the row. -/
theorem outcome_row_ok_iff {v : Expr} :
    (∃ value, (v.compile engine params (.row row 1)).outcome = .ok value) ↔
      v.FitsRow engine params 1 := by
  simp only [outcome_eq_ok]
  exact acceptedIff_compile_row rfl v 1

theorem acceptedIff_compileUpdate (e : Expr) :
    (e.compileUpdate engine params row).AcceptedIff
      (∃ op name v, e = .update op name v ∧ v.FitsRow engine params 1) := by
  cases e with
  | update op name v =>
      exact (acceptedIff_compile_row rfl v).bind_pure.congr (by simp)
  | _ => exact (acceptedIff_throw _).congr (by simp)

end Expr

namespace Setting

variable {s : Setting} {updates : List Expr} {n k : Nat} {t : Term}

/-- The fields of the entries are those that the operators change. -/
theorem map_fst_eq_filterMap_target? {row : Term} {entries : List (String × Term)}
    (h : List.Forall₂ (Expr.Patches s.engine s.params row) updates entries) :
    entries.map (·.1) = updates.filterMap Expr.target? := by
  induction h with
  | nil => rfl
  | cons head _ ih => rw [List.map_cons, List.filterMap_cons_some head.target?_eq, ih]

theorem yieldsEach_compileUpdate {row : Term} {entries : List (String × Term)} :
    YieldsEach (Expr.compileUpdate s.engine s.params row) updates n entries k ↔
      List.Forall₂ (Expr.Patches s.engine s.params row) updates entries ∧ k = n := by
  rw [yieldsEach_iff_of_drawsNothing Expr.drawsNothing_compileUpdate]
  simp only [Expr.outcome_compileUpdate_iff]

theorem yields_patch_iff {row : Term} :
    (s.patch updates row).Yields n t k ↔
      ∃ entries, List.Forall₂ (Expr.Patches s.engine s.params row) updates entries ∧
        (updates.filterMap Expr.target?).Nodup ∧ t = .makeObject entries ∧ k = n := by
  simp only [yields_patch, yieldsEach_compileUpdate]
  constructor
  · rintro ⟨entries, ⟨hentries, rfl⟩, hrepeat, rfl⟩
    rw [map_fst_eq_filterMap_target? hentries, firstRepeat?_eq_none_iff] at hrepeat
    exact ⟨entries, hentries, hrepeat.1, rfl, rfl⟩
  · rintro ⟨entries, hentries, hnodup, rfl, rfl⟩
    refine ⟨entries, ⟨hentries, rfl⟩, ?_, rfl⟩
    rw [map_fst_eq_filterMap_target? hentries, firstRepeat?_eq_none_iff]
    exact ⟨hnodup, fun _ _ => List.not_mem_nil⟩

theorem acceptedIff_patch (row : Term) :
    (s.patch updates row).AcceptedIff
      ((∀ e ∈ updates, ∃ op name v, e = .update op name v ∧ v.FitsRow s.engine s.params 1) ∧
        (updates.filterMap Expr.target?).Nodup) := by
  have heach : (updates.mapM (Expr.compileUpdate s.engine s.params row)).AcceptedIff
      (∀ e ∈ updates, ∃ op name v, e = .update op name v ∧ v.FitsRow s.engine s.params 1) :=
    AcceptedIff.mapM fun e _ => Expr.acceptedIff_compileUpdate e
  intro n
  rw [← heach n]
  simp only [yields_patch_iff, yields_mapM, yieldsEach_compileUpdate]
  constructor
  · rintro ⟨t, k, entries, hentries, hnodup, rfl, rfl⟩
    exact ⟨⟨entries, k, hentries, rfl⟩, hnodup⟩
  · rintro ⟨⟨entries, k, hentries, rfl⟩, hnodup⟩
    exact ⟨_, k, entries, hentries, hnodup, rfl, rfl⟩

theorem acceptedIff_updateAllTerm (p : Pipeline) (updates : List Expr) :
    (s.updateAllTerm p updates).AcceptedIff
      (updates ≠ [] ∧
        (∀ e ∈ updates, ∃ op name v, e = .update op name v ∧ v.FitsRow s.engine s.params 1) ∧
        (updates.filterMap Expr.target?).Nodup) := by
  intro n
  simp only [yields_updateAllTerm]
  rw [← acceptedIff_patch (.var n) (n + 1)]
  constructor
  · rintro ⟨t, k, hne, patch, hpatch, rfl⟩
    exact ⟨hne, patch, k, hpatch⟩
  · rintro ⟨hne, patch, k, hpatch⟩
    exact ⟨_, k, hne, patch, hpatch, rfl⟩

end Setting

namespace Compiler

variable {c : Compiler} {q : Query} {params : Params} {updates : List Expr} {t : Term}

theorem compileUpdateAll_ok_iff :
    (∃ t, c.compileUpdateAll q params updates = .ok t) ↔
      (∃ scope, (Pipeline.writeScope (c.setting params) q).outcome = .ok scope) ∧
        updates ≠ [] ∧
        (∀ e ∈ updates, ∃ op name v, e = .update op name v ∧ v.FitsRow c.engine params 1) ∧
        (updates.filterMap Expr.target?).Nodup := by
  have hscope := Pipeline.acceptedIff_writeScope (s := c.setting params) q
  have hall : (c.updateAll q params updates).AcceptedIff _ :=
    hscope.bind fun p _ _ _ => Setting.acceptedIff_updateAllTerm p updates
  simp only [compileUpdateAll, outcome_eq_ok]
  rw [hall 1, hscope 1]
  rfl

/-- The update that is sent: the rows, and a function that patches one of them. -/
theorem compileUpdateAll_eq_ok_iff :
    c.compileUpdateAll q params updates = .ok t ↔
      updates ≠ [] ∧ ∃ scope r entries,
        (Pipeline.writeScope (c.setting params) q).Yields 1 scope r ∧
        List.Forall₂ (Expr.Patches c.engine params (.var r)) updates entries ∧
        (updates.filterMap Expr.target?).Nodup ∧
        t = .op .update [scope.term, .func [r] (.makeObject entries)]
          (c.config.writeOptions false) := by
  have hoptions (scope : Pipeline) (f : Term) :
      c.config.withWriteOptions false (scope.term.update f) =
        .op .update [scope.term, f] (c.config.writeOptions false) :=
    c.config.withWriteOptions_eq false .update [scope.term, f]
  rw [compileUpdateAll, outcome_eq_ok]
  simp only [updateAll, yields_bind, Setting.yields_updateAllTerm, Setting.yields_patch_iff]
  constructor
  · rintro ⟨k, scope, r, hscope, hne, patch, ⟨entries, hentries, hnodup, rfl, rfl⟩, rfl⟩
    exact ⟨hne, scope, r, entries, hscope, hentries, hnodup, hoptions scope _⟩
  · rintro ⟨hne, scope, r, entries, hscope, hentries, hnodup, rfl⟩
    refine ⟨r + 1, scope, r, hscope, hne, _, ⟨entries, hentries, hnodup, rfl, rfl⟩, ?_⟩
    exact (hoptions scope _).symm

/-- Operators in another order give the same entries in that order. -/
theorem compileUpdateAll_perm {updates' : List Expr} (hperm : updates.Perm updates')
    (h : c.compileUpdateAll q params updates = .ok t) :
    ∃ rows r entries entries' options,
      t = .op .update [rows, .func [r] (.makeObject entries)] options ∧
      entries.Perm entries' ∧
      c.compileUpdateAll q params updates' =
        .ok (.op .update [rows, .func [r] (.makeObject entries')] options) := by
  obtain ⟨hne, scope, r, entries, hscope, hentries, hnodup, rfl⟩ :=
    compileUpdateAll_eq_ok_iff.mp h
  obtain ⟨entries', hentries', hperm'⟩ := List.perm_comp_forall₂ hperm.symm hentries
  refine ⟨scope.term, r, entries, entries', _, rfl, hperm'.symm, ?_⟩
  refine compileUpdateAll_eq_ok_iff.mpr ⟨?_, scope, r, entries', hscope, hentries', ?_, rfl⟩
  · intro hnil
    rw [hnil, List.perm_nil] at hperm
    exact hne hperm
  · exact (hperm.filterMap _).nodup_iff.mp hnodup

end Compiler

/-- An update of all rows of a query is accepted exactly if the rows can be read and
there are operators, all of them field operators with operands over one row, for
different fields. The patch then has the entries of the operators in their order,
each over the stored row alone. In another order the operators are accepted alike,
with the same entries in that order and all else the same. -/
theorem update_operators_independent (c : Compiler) (q : Query) (params : Params) :
    (∀ (row : Term) (updates : List Expr),
      (∃ t, c.compileUpdateAll q params updates = .ok t) ↔
        (∃ scope, (Pipeline.writeScope (c.setting params) q).outcome = .ok scope) ∧
        updates ≠ [] ∧
        (∀ e ∈ updates, ∃ op name v, e = .update op name v ∧
          ∃ value, (v.compile c.engine params (.row row 1)).outcome = .ok value) ∧
        (updates.filterMap Expr.target?).Nodup) ∧
    (∀ updates t, c.compileUpdateAll q params updates = .ok t →
      ∃ scope r entries, (Pipeline.writeScope (c.setting params) q).Yields 1 scope r ∧
        List.Forall₂ (Expr.Patches c.engine params (.var r)) updates entries ∧
        t = .op .update [scope.term, .func [r] (.makeObject entries)]
          (c.config.writeOptions false)) ∧
    ∀ updates updates' : List Expr, updates.Perm updates' →
      ((∃ t, c.compileUpdateAll q params updates = .ok t) ↔
        ∃ t, c.compileUpdateAll q params updates' = .ok t) ∧
      ∀ t, c.compileUpdateAll q params updates = .ok t →
        ∃ rows r entries entries' options,
          t = .op .update [rows, .func [r] (.makeObject entries)] options ∧
          entries.Perm entries' ∧
          c.compileUpdateAll q params updates' =
            .ok (.op .update [rows, .func [r] (.makeObject entries')] options) := by
  refine ⟨fun row updates => ?_, fun updates t h => ?_, fun updates updates' hperm => ⟨?_, ?_⟩⟩
  · simp only [Expr.outcome_row_ok_iff]
    exact Compiler.compileUpdateAll_ok_iff
  · obtain ⟨-, scope, r, entries, hscope, hentries, -, rfl⟩ :=
      Compiler.compileUpdateAll_eq_ok_iff.mp h
    exact ⟨scope, r, entries, hscope, hentries, rfl⟩
  · constructor
    · rintro ⟨t, h⟩
      obtain ⟨rows, r, entries, entries', options, -, -, h'⟩ :=
        Compiler.compileUpdateAll_perm hperm h
      exact ⟨_, h'⟩
    · rintro ⟨t, h⟩
      obtain ⟨rows, r, entries, entries', options, -, -, h'⟩ :=
        Compiler.compileUpdateAll_perm hperm.symm h
      exact ⟨_, h'⟩
  · intro t h
    exact Compiler.compileUpdateAll_perm hperm h

/-- The title that goes to the tags is the stored one, in whatever place the title is
set. Two operators for one field are refused. -/
theorem update_operators_independent_of_drafts :
    let drafts : Query := {
      source := ⟨"posts", some "Post"⟩, filters := [.compare .eq (.field 0 "draft") (.param 0)] }
    let views : Expr := .update .increment "views" (.param 1)
    let tags : Expr := .update .push "tags" (.field 0 "title")
    let title : Expr := .update .set "title" (.literal (.string "news"))
    let c : Compiler := {}
    let params : Params := [.bool true, .int 1]
    (∃ t scope r entries, c.compileUpdateAll drafts params [views, tags, title] = .ok t ∧
      (Pipeline.writeScope (c.setting params) drafts).Yields 1 scope r ∧
      List.Forall₂ (Expr.Patches c.engine params (.var r)) [views, tags, title] entries ∧
      t = .op .update [scope.term, .func [r] (.makeObject entries)] []) ∧
    (∃ t rows r entries entries' options,
      c.compileUpdateAll drafts params [views, tags, title] = .ok t ∧
      t = .op .update [rows, .func [r] (.makeObject entries)] options ∧ entries.Perm entries' ∧
      c.compileUpdateAll drafts params [title, views, tags] =
        .ok (.op .update [rows, .func [r] (.makeObject entries')] options)) ∧
    ¬ ∃ t, c.compileUpdateAll drafts params [views, tags, .update .set "views" (.param 1)] =
      .ok t := by
  intro drafts views tags title c params
  obtain ⟨haccepted, hentries, hordered⟩ := update_operators_independent c drafts params
  have hperm : [views, tags, title].Perm [title, views, tags] :=
    (List.perm_append_comm : ([views, tags] ++ [title]).Perm ([title] ++ [views, tags]))
  refine ⟨?_, ?_, fun h => ?_⟩
  · obtain ⟨scope, r, entries, hscope, hall, ht⟩ := hentries [views, tags, title] _ rfl
    exact ⟨_, scope, r, entries, rfl, hscope, hall, ht⟩
  · obtain ⟨rows, r, entries, entries', options, ht, hall, h'⟩ := (hordered _ _ hperm).2 _ rfl
    exact ⟨_, rows, r, entries, entries', options, rfl, ht, hall, h'⟩
  · obtain ⟨-, -, -, hnodup⟩ := (haccepted (.var 1) _).mp h
    exact absurd hnodup (by decide)

end DocQuery
