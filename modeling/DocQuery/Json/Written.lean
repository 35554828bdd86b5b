import DocQuery.Json.Token

/-!
# JSON as written

The tree of a JSON text before any value is checked: numbers keep their
spelling and an object keeps all of its fields, repeated keys included. The
reader is a machine over tokens with a stack of the arrays and objects that are
still open, so nesting is limited by nothing but the text.
-/

namespace DocQuery.Json

inductive Written
  | null
  | bool (b : Bool)
  | number (n : Numeral)
  | string (s : Quoted)
  | array (items : List Written)
  | object (fields : List (Quoted × Written))

namespace Written

/-- An open array or object: what it holds so far, last first. A frame of an
object also holds the key whose value is being read. -/
inductive Frame
  | array (items : List Written)
  | object (fields : List (Quoted × Written)) (key : Quoted)

/-- Where the reader stands. Inside an object that waits for a key, the fields
so far are part of the position. -/
inductive Position
  /-- A value has to follow. -/
  | value
  /-- Just after an opening bracket: a value or the closing bracket. -/
  | firstItem
  /-- A key has to follow; the closing brace may, if nothing was read yet. -/
  | key (fields : List (Quoted × Written))
  /-- A colon has to follow the key. -/
  | colon (fields : List (Quoted × Written)) (key : Quoted)
  /-- A value is complete inside an open array or object. -/
  | complete (v : Written)
  /-- The whole text is one value. -/
  | finished (v : Written)

/-- The position after a value, given the frames around it. -/
def close (v : Written) : List Frame → Position
  | [] => .finished v
  | _ :: _ => .complete v

/-- One token; nothing when it cannot stand there. -/
def step : Position × List Frame → Token → Option (Position × List Frame)
  | (.firstItem, .array items :: fs), .closeArray => some (close (.array items.reverse) fs, fs)
  | (.value, fs), t | (.firstItem, fs), t =>
    match t with
    | .null => some (close .null fs, fs)
    | .bool b => some (close (.bool b) fs, fs)
    | .number n => some (close (.number n) fs, fs)
    | .string s => some (close (.string s) fs, fs)
    | .openArray => some (.firstItem, .array [] :: fs)
    | .openObject => some (.key [], fs)
    | _ => none
  | (.key fields, fs), t =>
    match t, fields with
    | .string k, _ => some (.colon fields k, fs)
    | .closeObject, [] => some (close (.object []) fs, fs)
    | _, _ => none
  | (.colon fields k, fs), .colon => some (.value, .object fields k :: fs)
  | (.complete v, .array items :: fs), .comma => some (.value, .array (v :: items) :: fs)
  | (.complete v, .array items :: fs), .closeArray =>
    some (close (.array (v :: items).reverse) fs, fs)
  | (.complete v, .object fields k :: fs), .comma => some (.key ((k, v) :: fields), fs)
  | (.complete v, .object fields k :: fs), .closeObject =>
    some (close (.object ((k, v) :: fields).reverse) fs, fs)
  | _, _ => none

/-- The value that a text spells. -/
def ofText? (s : String) : Option Written := do
  let tokens ← Token.split s.toList
  match ← tokens.foldlM step (.value, []) with
  | (.finished v, _) => some v
  | _ => none

end Written

end DocQuery.Json
