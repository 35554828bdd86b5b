/-!
# Regular expressions

What the store's search makes of a regular expression, for the part of the
notation that patterns are rewritten to: anchors, any character, a run of any
characters, and characters that stand for themselves. A text with any other
operator in it is not read.
-/

namespace DocQuery

inductive Regex.Item
  /-- `^` -/
  | start
  /-- `$` -/
  | stop
  /-- `.` -/
  | any
  /-- `.*` -/
  | run
  | char (c : Char)
deriving DecidableEq

abbrev Regex := List Regex.Item

namespace Regex

/-- Whether an unescaped character is an operator. -/
def isOperator (c : Char) : Bool :=
  ['\\', '.', '+', '*', '?', '(', ')', '|', '[', '\x7b', '^', '$'].contains c

/-- Whether a character stands for itself after a backslash. Before a letter or
a digit, `<` or `>`, the backslash has meanings of its own. -/
def isEscapable (c : Char) : Bool :=
  c.toNat < 128 && !c.isAlphanum && c != '<' && c != '>'

def ofChars? : List Char → Option Regex
  | [] => some []
  | '^' :: rest => (ofChars? rest).map (.start :: ·)
  | '$' :: rest => (ofChars? rest).map (.stop :: ·)
  | '.' :: '*' :: rest => (ofChars? rest).map (.run :: ·)
  | '.' :: rest => (ofChars? rest).map (.any :: ·)
  | '\\' :: c :: rest => if isEscapable c then (ofChars? rest).map (.char c :: ·) else none
  | c :: rest => if isOperator c then none else (ofChars? rest).map (.char c :: ·)

def ofText? (text : String) : Option Regex := ofChars? text.toList

/-- The item matches `taken` in a text with `before` on its left and `after` on
its right. A line break is not any character. -/
def Item.Takes (before taken after : List Char) : Item → Prop
  | .start => before = [] ∧ taken = []
  | .stop => taken = [] ∧ after = []
  | .any => ∃ c, c ≠ '\n' ∧ taken = [c]
  | .run => '\n' ∉ taken
  | .char c => taken = [c]

/-- The items match `taken` one after another. -/
def Takes (before taken after : List Char) : Regex → Prop
  | [] => taken = []
  | item :: rest => ∃ first others, taken = first ++ others ∧
      item.Takes before first (others ++ after) ∧
        Takes (before ++ first) others after rest

/-- A search succeeds: there is a match somewhere in the text. -/
def FoundIn (r : Regex) (text : String) : Prop :=
  ∃ before taken after, text.toList = before ++ taken ++ after ∧ r.Takes before taken after

end Regex

end DocQuery
