import DocQuery.Rejection

/-!
# Compilations

A compilation draws variable numbers from a counter and either yields a value or
is rejected. The counter keeps the numbers drawn in both cases: a rejection does
not give them back.
-/

namespace DocQuery

abbrev Compile (α : Type) := ExceptT Rejection (StateM Nat) α

namespace Compile

variable {α β : Type}

/-- The outcome and the next free number, started from a given one. -/
def runFrom (m : Compile α) (next : Nat) : Except Rejection α × Nat := m.run.run next

/-- The outcome of a compilation of its own, which numbers from one. -/
def outcome (m : Compile α) : Except Rejection α := (m.runFrom 1).1

/-- Draws the next number. -/
def fresh : Compile Nat := ExceptT.mk fun next => pure (.ok next, next + 1)

/-- A function of one fresh variable. -/
def lambda (body : Term → Compile Term) : Compile Term := do
  let v ← fresh
  let t ← body (.var v)
  return .func [v] t

/-- A function of two fresh variables. -/
def lambda₂ (body : Term → Term → Compile Term) : Compile Term := do
  let a ← fresh
  let b ← fresh
  let t ← body (.var a) (.var b)
  return .func [a, b] t

theorem runFrom_pure (a : α) (n : Nat) : (pure a : Compile α).runFrom n = (.ok a, n) := rfl

theorem runFrom_throw (e : Rejection) (n : Nat) :
    (throw e : Compile α).runFrom n = (.error e, n) := rfl

theorem runFrom_bind (m : Compile α) (f : α → Compile β) (n : Nat) :
    (m >>= f).runFrom n =
      match m.runFrom n with
      | (.ok a, k) => (f a).runFrom k
      | (.error e, k) => (.error e, k) := by
  show (match m.runFrom n with | (r, k) => (ExceptT.bindCont f r).run k) = _
  rcases m.runFrom n with ⟨_ | _, _⟩ <;> rfl

theorem runFrom_fresh (n : Nat) : fresh.runFrom n = (.ok n, n + 1) := rfl

end Compile

end DocQuery
