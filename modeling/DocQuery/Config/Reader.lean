import DocQuery.Config.Basic
import DocQuery.Json.Written

/-!
# Reading a configuration

A configuration is written as an object or, in the order of its keys, as an
array. Whatever is missing has its default. Unknown keys may hold anything that
is JSON, but a known key may not be repeated and its value must be of its type.
-/

namespace DocQuery.Config

open Json (Written Quoted)

def readDatabase? : Written → Option (Option String)
  | .null => some none
  | .string (some s) => some (some s)
  | _ => none

def readFlag? : Written → Option Bool
  | .bool b => some b
  | _ => none

/-- A choice among names, written as the name or as the one key of an object
whose value is `null`. -/
def readChoice? {α : Type} (named : List (String × α)) : Written → Option α
  | .string (some s) => Entries.get? s named
  | .object [(some s, .null)] => Entries.get? s named
  | _ => none

def readConflict? : Written → Option Conflict :=
  readChoice? [("error", .error), ("replace", .replace), ("update", .update)]

def readDurability? : Written → Option Durability :=
  readChoice? [("hard", .hard), ("soft", .soft)]

/-- A part that may be missing: its default, or the value read. -/
def orDefault {α : Type} (default : α) (read : Written → Option α) : Option Written → Option α
  | none => some default
  | some w => read w

/-- The value under a key: absent is fine, repeated is not. -/
def unique? (key : String) (fields : List (String × Written)) : Option (Option Written) :=
  match fields.filter fun f => f.1 = key with
  | [] => some none
  | [(_, w)] => some (some w)
  | _ => none

def ofParts? (database returnChanges conflict durability : Option Written) : Option Config := do
  return {
    database := ← orDefault none readDatabase? database
    returnChanges := ← orDefault false readFlag? returnChanges
    conflict := ← orDefault .error readConflict? conflict
    durability := ← orDefault .hard readDurability? durability }

def ofWritten? : Written → Option Config
  | .object fields => do
    let fields ← fields.mapM fun (k, w) => k.map (·, w)
    ofParts? (← unique? "database" fields) (← unique? "return_changes" fields)
      (← unique? "conflict" fields) (← unique? "durability" fields)
  | .array items =>
    if items.length ≤ 4 then ofParts? items[0]? items[1]? items[2]? items[3]? else none
  | _ => none

/-- The configuration that a text spells. -/
def ofText? (s : String) : Option Config := (Written.ofText? s).bind ofWritten?

end DocQuery.Config
