import DocQuery.Rejection

/-!
# LIKE patterns

A LIKE pattern as the pieces it is made of, and the regular expression that the
store searches for in its place. One `%` at either end leaves that end
unanchored and is dropped; any other `%` is a run of characters, `_` is one
character, and everything else stands for itself. The expression is checked
before it is sent, by an engine that may refuse it.
-/

namespace DocQuery

/-- What checks regular expressions: the reason for which it refuses one, such as its
size. By default it refuses none. -/
structure RegexEngine where
  refusal? : String → Option String := fun _ => none

/-- What one character of a pattern stands for. -/
inductive LikePattern.Piece
  /-- Any run of characters, the empty one included. -/
  | run
  /-- Any one character. -/
  | one
  | char (c : Char)
deriving DecidableEq

structure LikePattern where
  ignoreCase : Bool
  fromStart : Bool
  pieces : List LikePattern.Piece
  toEnd : Bool
deriving DecidableEq

namespace LikePattern

def Piece.ofChar : Char → Piece
  | '%' => .run
  | '_' => .one
  | c => .char c

/-- Takes a pattern apart. The leading `%` is taken first, so that `%` alone is
only open at the start. -/
def read (pattern : String) (ignoreCase : Bool) : LikePattern :=
  let (body, fromStart) :=
    match pattern.toList with
    | '%' :: rest => (rest, false)
    | cs => (cs, true)
  let (body, toEnd) :=
    if body.getLast? = some '%' then (body.dropLast, false) else (body, true)
  ⟨ignoreCase, fromStart, body.map Piece.ofChar, toEnd⟩

/-- Whether a character has a meaning of its own in a regular expression. -/
def isMeta (c : Char) : Bool :=
  ['\\', '.', '+', '*', '?', '(', ')', '|', '[', ']', '\x7b', '\x7d', '^', '$', '#', '&', '-',
    '~'].contains c

def Piece.regex : Piece → List Char
  | .run => ['.', '*']
  | .one => ['.']
  | .char c => if isMeta c then ['\\', c] else [c]

/-- The regular expression to search for. -/
def regex (p : LikePattern) : String :=
  String.ofList ((if p.ignoreCase then ['(', '?', 'i', ')'] else []) ++
    (if p.fromStart then ['^'] else []) ++ p.pieces.flatMap Piece.regex ++
    (if p.toEnd then ['$'] else []))

example : (read "m%" false).regex = "^m" := by decide +kernel
example : (read "%" false).regex = "$" := by decide +kernel
example : (read "a%b_c." true).regex = "(?i)^a.*b.c\\.$" := by decide +kernel

/-- Takes a pattern apart, if the engine does not refuse its regular expression. -/
def compile (engine : RegexEngine) (pattern : String) (ignoreCase : Bool) :
    Except Rejection LikePattern :=
  let p := read pattern ignoreCase
  match engine.refusal? p.regex with
  | none => .ok p
  | some reason => .error (.patternRefused reason)

theorem compile_eq_ok {engine : RegexEngine} {pattern : String} {ignoreCase : Bool}
    {p : LikePattern} : compile engine pattern ignoreCase = .ok p ↔
      engine.refusal? p.regex = none ∧ p = read pattern ignoreCase := by
  simp only [compile]
  rcases h : engine.refusal? (read pattern ignoreCase).regex with _ | reason
  · constructor
    · rintro ⟨⟩
      exact ⟨h, rfl⟩
    · rintro ⟨-, rfl⟩
      rfl
  · constructor
    · nofun
    · rintro ⟨htaken, rfl⟩
      rw [h] at htaken
      cases htaken

example : compile { refusal? := fun _ => some "too large" } "a_" false =
    .error (.patternRefused "too large") := rfl

end LikePattern

end DocQuery
