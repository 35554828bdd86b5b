import DocQuery.Expr.Basic
import DocQuery.Json.Text

/-!
# The readable form of expressions

What a message shows of an expression. Text is not escaped here: this form is
for people and is never read back.
-/

namespace DocQuery

namespace Literal

/-- Floats are written positionally at any size, and a whole number shows no
decimal part. -/
def floatLayout : Layout where
  positional _ := true
  keepsFraction := false
  tie := .up

def text : Literal → String
  | .string s => "s: \"" ++ s ++ "\""
  | .int n => "i: " ++ toString n
  | .float x => "f: " ++ floatLayout.text x
  | .bool b => "b: " ++ (if b then "true" else "false")
  | .null => "n: NULL"

/-- The text of a literal under the name of its type. -/
def describe (l : Literal) : String :=
  let kind := match l with
    | .string _ => "String"
    | .int _ => "Int"
    | .float _ => "Float"
    | .bool _ => "Bool"
    | .null => "Null"
  kind ++ "(" ++ l.text ++ ")"

end Literal

def Comparator.symbol : Comparator → String
  | .eq => "="
  | .ne => "!="
  | .lt => "<"
  | .le => "<="
  | .gt => ">"
  | .ge => ">="

def ArithmeticOp.symbol : ArithmeticOp → String
  | .add => "Add"
  | .sub => "Sub"
  | .mul => "Mul"
  | .div => "Div"

def AggregateFunc.name : AggregateFunc → String
  | .count => "count"
  | .sum => "sum"
  | .avg => "avg"
  | .min => "min"
  | .max => "max"

def UpdateOp.name : UpdateOp → String
  | .set => "set"
  | .increment => "inc"
  | .push => "push"
  | .pull => "pull"

namespace Expr

/-- A parenthesised list with a spaced separator. -/
def joined (separator : String) (items : List String) : String :=
  "(" ++ String.intercalate (" " ++ separator ++ " ") items ++ ")"

mutual

def text : Expr → String
  | .literal l => l.text
  | .param i => "?" ++ toString i
  | .paramSlice s n => "?[" ++ toString s ++ ".." ++ toString (s + n) ++ "]"
  | .field r name => "$" ++ toString r ++ "." ++ name
  | .entity r => "$" ++ toString r
  | .compare op l r => "(" ++ l.text ++ " " ++ op.symbol ++ " " ++ r.text ++ ")"
  | .arith op l r => "(" ++ l.text ++ " " ++ op.symbol ++ " " ++ r.text ++ ")"
  | .and es => joined "and" (texts es)
  | .or es => joined "or" (texts es)
  | .not e => "not " ++ e.text
  | .isIn e l => "(" ++ e.text ++ " in " ++ l.text ++ ")"
  | .isNull e => "is_nil(" ++ e.text ++ ")"
  | .like e p ignoreCase =>
    (if ignoreCase then "ilike" else "like") ++ "(" ++ e.text ++ ", " ++ p.text ++ ")"
  | .aggregate f e distinct =>
    f.name ++ "(" ++ (if distinct then "distinct " else "") ++ e.text ++ ")"
  | .update op target v => op.name ++ "(" ++ target ++ ", " ++ v.text ++ ")"
  | .tuple es => joined "," (texts es)
  | .list es => joined "," (texts es)
  | .map entries => "%\x7b" ++ String.intercalate ", " (entryTexts entries) ++ "\x7d"

def texts : List Expr → List String
  | [] => []
  | e :: rest => e.text :: texts rest

def entryTexts : List (String × Expr) → List String
  | [] => []
  | (k, e) :: rest => (k ++ ": " ++ e.text) :: entryTexts rest

end

end Expr

end DocQuery
