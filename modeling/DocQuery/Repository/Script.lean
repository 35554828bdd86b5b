import DocQuery.Repository.Basic

/-!
# Scripted stores

A store that plays back outcomes given beforehand and keeps the terms it
received, in order. When its outcomes run out it does not answer in time.
-/

namespace DocQuery

structure Script where
  outcomes : List Outcome
  received : List Term := []

namespace Script

/-- Receives a term and plays back the next outcome. -/
def send (t : Term) : StateM Script Outcome := fun s =>
  match s.outcomes with
  | [] => (.error .timeout, ⟨[], s.received ++ [t]⟩)
  | o :: rest => (o, ⟨rest, s.received ++ [t]⟩)

end Script

/-- A repository in front of a scripted store. -/
def Compiler.scripted (c : Compiler) : Repository (StateM Script) := ⟨c, Script.send⟩

end DocQuery
