import DocQuery.Proofs.Hygiene.Stages

/-!
# Variables over whole sessions

The term of a session is well-built after every call, whatever the calls and
their order, and rejected calls included. As long as nothing was totalled, every
number is bound by one function only. Queries and writes are sessions of their
own.
-/

namespace DocQuery

open Compile Term

/-! ## One call -/

namespace Stage

variable {s : Setting} {p p' : Pipeline} {n k : Nat}

/-- The call projects a total, of a pipeline with these keys. -/
def Totals (keys : List Expr) : Stage → Prop
  | .select projection _ => Pipeline.Totals keys projection
  | .build q => Pipeline.Totals q.groupKeys q.projection
  | _ => False

/-- A call starts again from a source or goes on with the pipeline. -/
def base (s : Setting) (p : Pipeline) : Stage → Pipeline
  | .source table => Pipeline.ofSource s table
  | .build q | .writeScope q => Pipeline.ofSource s q.source
  | _ => p

theorem grows_run (stage : Stage) : (stage.run s p).Grows := by
  cases stage with
  | source table => exact grows_pure _
  | joins js => exact Pipeline.grows_joins js
  | filters conditions => exact Pipeline.grows_filterAll conditions
  | groupBy keys => exact Pipeline.grows_groupBy keys
  | having conditions => exact Pipeline.grows_having conditions
  | orderBy order => exact Pipeline.grows_orderBy order
  | offset count => exact Pipeline.grows_counted count
  | limit count => exact Pipeline.grows_counted count
  | select projection preloads => exact Pipeline.grows_select projection preloads
  | distinct d => exact Pipeline.grows_distinct d
  | build q => exact Pipeline.grows_ofQuery q
  | writeScope q => exact Pipeline.grows_writeScope q

theorem extends_run {stage : Stage} (h : (stage.run s p).Yields n p' k)
    (hnot : ¬ stage.Totals p.groupKeys) : Extends n k (stage.base s p).term p'.term := by
  cases stage with
  | source table =>
      obtain ⟨rfl, rfl⟩ := yields_pure.mp h
      exact .refl _ _
  | joins js => exact Pipeline.extends_joins h
  | filters conditions => exact Pipeline.extends_filterAll h
  | groupBy keys => exact Pipeline.extends_groupBy h
  | having conditions => exact Pipeline.extends_having h
  | orderBy order => exact Pipeline.extends_orderBy h
  | offset count => exact Pipeline.extends_offset h
  | limit count => exact Pipeline.extends_limit h
  | select projection preloads => exact Pipeline.extends_select h hnot
  | distinct d => exact Pipeline.extends_distinct h
  | build q => exact Pipeline.extends_ofQuery h hnot
  | writeScope q => exact Pipeline.extends_writeScope h

theorem wellBuilt_base (stage : Stage) (hp : p.term.WellBuilt [] n) :
    (stage.base s p).term.WellBuilt [] n := by
  cases stage with
  | source | build | writeScope => exact Pipeline.wellBuilt_table _ _
  | _ => exact hp

theorem nodup_base (stage : Stage) (hp : p.term.binders.Nodup) :
    (stage.base s p).term.binders.Nodup := by
  cases stage with
  | source table =>
      rw [base, Pipeline.ofSource, Pipeline.binders_table]
      exact List.nodup_nil
  | build q | writeScope q =>
      rw [base, Pipeline.ofSource, Pipeline.binders_table]
      exact List.nodup_nil
  | _ => exact hp

theorem wellBuilt_run {stage : Stage} (h : (stage.run s p).Yields n p' k)
    (hp : p.term.WellBuilt [] n) : p'.term.WellBuilt [] k := by
  by_cases htotal : stage.Totals p.groupKeys
  · cases stage with
    | select projection preloads => exact Pipeline.wellBuilt_select h hp
    | build q => exact Pipeline.wellBuilt_ofQuery h
    | _ => exact htotal.elim
  · exact (extends_run h htotal).wellBuilt (stage.wellBuilt_base hp)

end Stage

/-! ## All calls -/

namespace Session

variable {s : Setting}

theorem call_cases (session : Session) (stage : Stage) :
    (∃ p k, (stage.run s session.pipeline).Yields session.next p k ∧
        session.call s stage = (.ok p, ⟨p, k⟩)) ∨
      ∃ r k, session.next ≤ k ∧ session.call s stage = (.error r, { session with next := k }) := by
  have hgrows := stage.grows_run (s := s) (p := session.pipeline) session.next
  rcases h : (stage.run s session.pipeline).runFrom session.next with ⟨r | p, k⟩
  · rw [h] at hgrows
    exact Or.inr ⟨r, k, hgrows, by rw [call, h]⟩
  · exact Or.inl ⟨p, k, h, by rw [call, h]⟩

/-- What every call keeps. -/
def WellBuilt (session : Session) : Prop := session.pipeline.term.WellBuilt [] session.next

theorem wellBuilt_call {session : Session} (h : session.WellBuilt) (stage : Stage) :
    (session.call s stage).2.WellBuilt := by
  rcases session.call_cases stage with ⟨p, k, hp, heq⟩ | ⟨r, k, hk, heq⟩
  · rw [heq]
    exact Stage.wellBuilt_run hp h
  · rw [heq]
    exact h.mono hk

theorem wellBuilt_run {session : Session} (h : session.WellBuilt) (stages : List Stage) :
    (session.run s stages).WellBuilt := by
  induction stages generalizing session with
  | nil => exact h
  | cons stage rest ih => exact ih (wellBuilt_call h stage)

theorem wellBuilt_start (source : Source) : (start s source).WellBuilt :=
  Pipeline.wellBuilt_table _ _

/-- No call of the run projects a total, or it is rejected. -/
def AvoidsTotals (s : Setting) : Session → List Stage → Prop
  | _, [] => True
  | session, stage :: rest =>
    (stage.Totals session.pipeline.groupKeys → ∃ r, (session.call s stage).1 = .error r) ∧
      AvoidsTotals s (session.call s stage).2 rest

theorem nodup_call {session : Session} (h : session.WellBuilt)
    (hnodup : session.pipeline.term.binders.Nodup) {stage : Stage}
    (havoids : stage.Totals session.pipeline.groupKeys →
      ∃ r, (session.call s stage).1 = .error r) :
    (session.call s stage).2.pipeline.term.binders.Nodup := by
  rcases session.call_cases stage with ⟨p, k, hp, heq⟩ | ⟨r, k, hk, heq⟩
  · rw [heq] at havoids ⊢
    have hnot : ¬ stage.Totals session.pipeline.groupKeys := by
      intro htotal
      obtain ⟨r, hr⟩ := havoids htotal
      cases hr
    exact (Stage.extends_run hp hnot).nodup (stage.wellBuilt_base h) (stage.nodup_base hnodup)
  · rw [heq]
    exact hnodup

theorem nodup_run {session : Session} (h : session.WellBuilt)
    (hnodup : session.pipeline.term.binders.Nodup) {stages : List Stage}
    (havoids : AvoidsTotals s session stages) :
    (session.run s stages).pipeline.term.binders.Nodup := by
  induction stages generalizing session with
  | nil => exact hnodup
  | cons stage rest ih =>
      exact ih (wellBuilt_call h stage) (nodup_call h hnodup havoids.1) havoids.2

end Session

end DocQuery
