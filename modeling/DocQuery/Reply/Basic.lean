import DocQuery.Json.Basic

/-!
# Replies of the store

What the store sends back for one term, told apart by shape: an array is
documents, an object with an `error` string is an error, an object that reads as
a write summary is one, and anything else is a scalar.
-/

namespace DocQuery

/-- What a write did. -/
structure WriteSummary where
  inserted : Nat := 0
  replaced : Nat := 0
  unchanged : Nat := 0
  deleted : Nat := 0
  skipped : Nat := 0
  errors : Nat := 0
  generatedKeys : List Json := []
  firstError : Option String := none

namespace WriteSummary

/-- The documents that a write touched. -/
def affected (s : WriteSummary) : Nat := s.inserted + s.replaced + s.deleted

def counter? (fields : Entries Json) (key : String) : Option Nat :=
  match Entries.get? key fields with
  | none => some 0
  | some (.number (.int n)) => if 0 ≤ n then some n.toNat else none
  | some _ => none

def keys? (fields : Entries Json) : Option (List Json) :=
  match Entries.get? "generated_keys" fields with
  | none => some []
  | some (.array keys) => some keys
  | some _ => none

def firstError? (fields : Entries Json) : Option (Option String) :=
  match Entries.get? "first_error" fields with
  | none | some .null => some none
  | some (.string s) => some (some s)
  | some _ => none

/-- Reads a summary: every known key that is present has to be of its type, and
other keys may hold anything. -/
def ofFields? (fields : Entries Json) : Option WriteSummary := do
  return {
    inserted := ← counter? fields "inserted"
    replaced := ← counter? fields "replaced"
    unchanged := ← counter? fields "unchanged"
    deleted := ← counter? fields "deleted"
    skipped := ← counter? fields "skipped"
    errors := ← counter? fields "errors"
    generatedKeys := ← keys? fields
    firstError := ← firstError? fields }

/-- The keys by which an object is taken for a summary. -/
def markers : List String := ["inserted", "replaced", "deleted", "generated_keys"]

def isMarked (fields : Entries Json) : Bool :=
  markers.any fun key => (Entries.get? key fields).isSome

end WriteSummary

inductive Reply
  | documents (docs : List Json)
  | scalar (value : Json)
  | summary (s : WriteSummary)
  | error (text : String)

namespace Reply

/-- An object with fields, without an error string. -/
def ofPlainFields (fields : Entries Json) : Reply :=
  if WriteSummary.isMarked fields then
    match WriteSummary.ofFields? fields with
    | some s => .summary s
    | none => .scalar (.object fields)
  else .scalar (.object fields)

def ofJson : Json → Reply
  | .array docs => .documents docs
  | .object fields =>
    match Entries.get? "error" fields with
    | some (.string text) => .error text
    | _ => ofPlainFields fields
  | v => .scalar v

end Reply

end DocQuery
