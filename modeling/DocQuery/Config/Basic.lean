import DocQuery.Json.Basic

/-!
# Configuration

What a compiler is set up with: the database that qualifies every table, and
the options that go with writes.
-/

namespace DocQuery

/-- What the store does when an insert meets an existing primary key. -/
inductive Conflict
  /-- Refuse the write. -/
  | error
  | replace
  /-- Merge into the stored document. -/
  | update
deriving DecidableEq

def Conflict.name : Conflict → String
  | .error => "error"
  | .replace => "replace"
  | .update => "update"

inductive Durability
  | hard
  | soft
deriving DecidableEq

def Durability.name : Durability → String
  | .hard => "hard"
  | .soft => "soft"

structure Config where
  database : Option String := none
  /-- Whether the store is asked to send old and new values back. -/
  returnChanges : Bool := false
  conflict : Conflict := .error
  durability : Durability := .hard
deriving DecidableEq

namespace Config

def toJson (c : Config) : Json :=
  .object
    [("database", match c.database with
      | some name => .string name
      | none => .null),
     ("return_changes", .bool c.returnChanges),
     ("conflict", .string c.conflict.name),
     ("durability", .string c.durability.name)]

end Config

end DocQuery
