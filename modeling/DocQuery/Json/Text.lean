import DocQuery.Json.Basic
import DocQuery.Number.Layout

/-!
# Compact JSON text

The one text form of a JSON value that the program writes: no spaces, keys in
their order. Quotation marks, backslashes and control characters are escaped
and nothing else is.
-/

namespace DocQuery

namespace Json

/-- Floats are positional from `1e-5` up to below `1e16` and always show a
decimal part or an exponent. -/
def floatLayout : Layout where
  positional e := -5 ≤ e && e ≤ 15
  keepsFraction := true
  tie := .toEven

/-- The four hexadecimal digits of an escape, lower case. -/
def hexDigits4 (n : Nat) : List Char :=
  [n / 4096 % 16, n / 256 % 16, n / 16 % 16, n % 16].map Nat.digitChar

def escapeChar (c : Char) : List Char :=
  match c with
  | '"' => ['\\', '"']
  | '\\' => ['\\', '\\']
  | '\x08' => ['\\', 'b']
  | '\x0c' => ['\\', 'f']
  | '\n' => ['\\', 'n']
  | '\r' => ['\\', 'r']
  | '\t' => ['\\', 't']
  | c => if c.toNat < 0x20 then '\\' :: 'u' :: hexDigits4 c.toNat else [c]

def quote (s : String) : String :=
  String.ofList ('"' :: s.toList.flatMap escapeChar ++ ['"'])

end Json

def Number.text : Number → String
  | .int n => toString n
  | .float x => Json.floatLayout.text x

namespace Json

mutual

/-- The compact text of a value. -/
def text : Json → String
  | .null => "null"
  | .bool b => if b then "true" else "false"
  | .number n => n.text
  | .string s => quote s
  | .array items => "[" ++ String.intercalate "," (itemTexts items) ++ "]"
  | .object fields => "\x7b" ++ String.intercalate "," (fieldTexts fields) ++ "\x7d"

def itemTexts : List Json → List String
  | [] => []
  | v :: rest => v.text :: itemTexts rest

def fieldTexts : List (String × Json) → List String
  | [] => []
  | (k, v) :: rest => (quote k ++ ":" ++ v.text) :: fieldTexts rest

end

end Json

end DocQuery
