import DocQuery.Json.Text
import DocQuery.Reply.Basic
import DocQuery.Text.Quoted

/-!
# Descriptions of replies

How a message shows a reply that was not of the expected shape: every value
under the name of its type.
-/

namespace DocQuery

/-- Descriptions in brackets, separated by commas. -/
def bracketed (items : List String) : String := "[" ++ String.intercalate ", " items ++ "]"

namespace Json

mutual

def describe : Json → String
  | .null => "Null"
  | .bool b => "Bool(" ++ (if b then "true" else "false") ++ ")"
  | .number n => "Number(" ++ n.text ++ ")"
  | .string s => "String(" ++ Text.quoted s ++ ")"
  | .array items => "Array " ++ bracketed (describeItems items)
  | .object fields =>
    "Object \x7b" ++ String.intercalate ", " (describeFields fields) ++ "\x7d"

def describeItems : List Json → List String
  | [] => []
  | v :: rest => v.describe :: describeItems rest

def describeFields : List (String × Json) → List String
  | [] => []
  | (k, v) :: rest => (Text.quoted k ++ ": " ++ v.describe) :: describeFields rest

end

end Json

def WriteSummary.describe (s : WriteSummary) : String :=
  "MutationSummary \x7b inserted: " ++ toString s.inserted ++
    ", replaced: " ++ toString s.replaced ++
    ", unchanged: " ++ toString s.unchanged ++
    ", deleted: " ++ toString s.deleted ++
    ", skipped: " ++ toString s.skipped ++
    ", errors: " ++ toString s.errors ++
    ", generated_keys: " ++ bracketed (Json.describeItems s.generatedKeys) ++
    ", first_error: " ++ (match s.firstError with
      | some text => "Some(" ++ Text.quoted text ++ ")"
      | none => "None") ++ " \x7d"

def Reply.describe : Reply → String
  | .documents docs => "Documents(" ++ bracketed (Json.describeItems docs) ++ ")"
  | .scalar v => "Scalar(" ++ v.describe ++ ")"
  | .summary s => "Mutation(" ++ s.describe ++ ")"
  | .error text => "Error(" ++ Text.quoted text ++ ")"

end DocQuery
