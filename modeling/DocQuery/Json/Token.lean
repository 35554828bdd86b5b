/-!
# Tokens of JSON text

Splits JSON text into tokens. Numbers keep their spelling, so nothing is
rounded or range-checked here, and a string whose escapes leave half of a
surrogate pair is kept as such: whether that matters is for the reader of the
value to say.
-/

namespace DocQuery.Json

/-- A number as spelled: the digits before the point, those after it, and the
exponent, each of the last two only if written. -/
structure Numeral where
  negative : Bool
  whole : List Char
  fraction : Option (List Char)
  exponent : Option Int
deriving DecidableEq

/-- A string as spelled; nothing when an escape is half of a surrogate pair. -/
abbrev Quoted := Option String

inductive Token
  | openArray
  | closeArray
  | openObject
  | closeObject
  | colon
  | comma
  | null
  | bool (b : Bool)
  | number (n : Numeral)
  | string (s : Quoted)
deriving DecidableEq

/-- The number spelled by decimal digits. -/
def natOfDigits (ds : List Char) : Nat :=
  ds.foldl (fun n d => 10 * n + (d.toNat - '0'.toNat)) 0

/-! ## Numbers -/

namespace Numeral

def scanSign : List Char → Bool × List Char
  | '-' :: rest => (true, rest)
  | s => (false, s)

/-- One zero, or digits that do not begin with one. -/
def scanWhole : List Char → Option (List Char × List Char)
  | '0' :: rest => some (['0'], rest)
  | s =>
    let ds := s.takeWhile Char.isDigit
    if ds.isEmpty then none else some (ds, s.dropWhile Char.isDigit)

def scanFraction : List Char → Option (Option (List Char) × List Char)
  | '.' :: rest =>
    let ds := rest.takeWhile Char.isDigit
    if ds.isEmpty then none else some (some ds, rest.dropWhile Char.isDigit)
  | s => some (none, s)

def scanExponentSign : List Char → Bool × List Char
  | '-' :: rest => (true, rest)
  | '+' :: rest => (false, rest)
  | s => (false, s)

def scanExponent : List Char → Option (Option Int × List Char)
  | [] => some (none, [])
  | c :: rest =>
    if c = 'e' ∨ c = 'E' then
      let (negative, rest) := scanExponentSign rest
      let ds := rest.takeWhile Char.isDigit
      if ds.isEmpty then none
      else
        let n : Int := natOfDigits ds
        some (some (if negative then -n else n), rest.dropWhile Char.isDigit)
    else some (none, c :: rest)

/-- The longest number at the front of the text. -/
def scan (s : List Char) : Option (Numeral × List Char) := do
  let (negative, s) := scanSign s
  let (whole, s) ← scanWhole s
  let (fraction, s) ← scanFraction s
  let (exponent, s) ← scanExponent s
  return (⟨negative, whole, fraction, exponent⟩, s)

theorem length_dropWhile_le (p : Char → Bool) (s : List Char) :
    (s.dropWhile p).length ≤ s.length :=
  (List.dropWhile_sublist p).length_le

theorem length_scanSign (s : List Char) : (scanSign s).2.length ≤ s.length := by
  unfold scanSign
  split <;> simp

theorem length_scanWhole {s ds rest : List Char} (h : scanWhole s = some (ds, rest)) :
    rest.length < s.length := by
  unfold scanWhole at h
  split at h
  · cases h; simp
  · dsimp only at h
    split at h
    · cases h
    · next he =>
      cases h
      have hsplit : (s.takeWhile Char.isDigit).length + (s.dropWhile Char.isDigit).length
          = s.length := by
        rw [← List.length_append, List.takeWhile_append_dropWhile]
      have : 0 < (s.takeWhile Char.isDigit).length := by
        cases ht : s.takeWhile Char.isDigit with
        | nil => simp [ht] at he
        | cons => simp
      omega

theorem length_scanFraction {s rest : List Char} {f : Option (List Char)}
    (h : scanFraction s = some (f, rest)) : rest.length ≤ s.length := by
  unfold scanFraction at h
  split at h
  · dsimp only at h
    split at h
    · cases h
    · cases h
      exact Nat.le_trans (length_dropWhile_le _ _) (Nat.le_succ _)
  · cases h; simp

theorem length_scanExponentSign (s : List Char) :
    (scanExponentSign s).2.length ≤ s.length := by
  unfold scanExponentSign
  split <;> simp

theorem length_scanExponent {s rest : List Char} {e : Option Int}
    (h : scanExponent s = some (e, rest)) : rest.length ≤ s.length := by
  unfold scanExponent at h
  split at h
  · cases h; simp
  · next c tail =>
    split at h
    · dsimp only at h
      split at h
      · cases h
      · cases h
        have := length_scanExponentSign tail
        have := length_dropWhile_le Char.isDigit (scanExponentSign tail).2
        simp only [List.length_cons]
        omega
    · cases h; simp

/-- A number takes at least one character. -/
theorem length_scan {s rest : List Char} {n : Numeral} (h : scan s = some (n, rest)) :
    rest.length < s.length := by
  unfold scan at h
  simp only [Option.bind_eq_bind, Option.bind_eq_some_iff, Prod.exists] at h
  obtain ⟨_, s₁, h₁, _, s₂, h₂, _, s₃, h₃, h₄⟩ := h
  cases h₄
  have := length_scanSign s
  have := length_scanWhole h₁
  have := length_scanFraction h₂
  have := length_scanExponent h₃
  omega

end Numeral

/-! ## Strings -/

/-- A piece of a string: a character, or a code unit given by its number. -/
inductive Piece
  | char (c : Char)
  | unit (u : Nat)
deriving DecidableEq

def hexDigit? (c : Char) : Option Nat :=
  if c.isDigit then some (c.toNat - '0'.toNat)
  else if 'a' ≤ c ∧ c ≤ 'f' then some (c.toNat - 'a'.toNat + 10)
  else if 'A' ≤ c ∧ c ≤ 'F' then some (c.toNat - 'A'.toNat + 10)
  else none

def unit? (a b c d : Char) : Option Nat := do
  return ((← hexDigit? a) * 16 + (← hexDigit? b)) * 256 + (← hexDigit? c) * 16 + (← hexDigit? d)

def simpleEscape? : Char → Option Char
  | '"' => some '"'
  | '\\' => some '\\'
  | '/' => some '/'
  | 'b' => some '\x08'
  | 'f' => some '\x0c'
  | 'n' => some '\n'
  | 'r' => some '\r'
  | 't' => some '\t'
  | _ => none

/-- The rest of a string after its opening quotation mark. Control characters
have to be escaped. -/
def scanQuoted : List Char → Option (List Piece × List Char)
  | [] => none
  | '"' :: rest => some ([], rest)
  | '\\' :: 'u' :: a :: b :: c :: d :: rest =>
    match unit? a b c d, scanQuoted rest with
    | some u, some (ps, tail) => some (.unit u :: ps, tail)
    | _, _ => none
  | '\\' :: e :: rest =>
    match simpleEscape? e, scanQuoted rest with
    | some c, some (ps, tail) => some (.char c :: ps, tail)
    | _, _ => none
  | c :: rest =>
    if c.toNat < 0x20 then none
    else match scanQuoted rest with
      | some (ps, tail) => some (.char c :: ps, tail)
      | none => none

/-- A string takes at least its closing quotation mark. -/
theorem length_scanQuoted {s rest : List Char} {ps : List Piece}
    (h : scanQuoted s = some (ps, rest)) : rest.length < s.length := by
  fun_induction scanQuoted s generalizing ps rest with
  | case1 => cases h
  | case2 => cases h; simp
  | case3 _ _ _ _ _ _ _ _ hq _ ih =>
    cases h
    have := ih hq
    simp only [List.length_cons]
    omega
  | case5 _ _ _ _ _ _ hq _ ih =>
    cases h
    have := ih hq
    simp only [List.length_cons]
    omega
  | case8 _ _ _ _ _ _ _ _ hq ih =>
    cases h
    have := ih hq
    simp only [List.length_cons]
    omega
  | case4 | case6 | case7 | case9 => cases h

def isHighSurrogate (u : Nat) : Bool := 0xD800 ≤ u && u ≤ 0xDBFF

def isLowSurrogate (u : Nat) : Bool := 0xDC00 ≤ u && u ≤ 0xDFFF

/-- Joins surrogate pairs; a half without its partner spoils the string. -/
def joinPieces : List Piece → Option (List Char)
  | [] => some []
  | .char c :: rest => (joinPieces rest).map (c :: ·)
  | .unit h :: .unit l :: rest =>
    if isHighSurrogate h && isLowSurrogate l then
      (joinPieces rest).map (Char.ofNat (0x10000 + (h - 0xD800) * 0x400 + (l - 0xDC00)) :: ·)
    else if isHighSurrogate h || isLowSurrogate h then none
    else (joinPieces (.unit l :: rest)).map (Char.ofNat h :: ·)
  | .unit u :: rest =>
    if isHighSurrogate u || isLowSurrogate u then none
    else (joinPieces rest).map (Char.ofNat u :: ·)

/-! ## Splitting -/

def isBlank (c : Char) : Bool := c == ' ' || c == '\t' || c == '\n' || c == '\r'

/-- The tokens of a text, or nothing where no token begins. -/
def Token.split (s : List Char) : Option (List Token) :=
  match s with
  | [] => some []
  | '[' :: rest => (split rest).map (.openArray :: ·)
  | ']' :: rest => (split rest).map (.closeArray :: ·)
  | '{' :: rest => (split rest).map (.openObject :: ·)
  | '}' :: rest => (split rest).map (.closeObject :: ·)
  | ':' :: rest => (split rest).map (.colon :: ·)
  | ',' :: rest => (split rest).map (.comma :: ·)
  | 'n' :: 'u' :: 'l' :: 'l' :: rest => (split rest).map (.null :: ·)
  | 't' :: 'r' :: 'u' :: 'e' :: rest => (split rest).map (.bool true :: ·)
  | 'f' :: 'a' :: 'l' :: 's' :: 'e' :: rest => (split rest).map (.bool false :: ·)
  | '"' :: rest =>
    match h : scanQuoted rest with
    | none => none
    | some (ps, tail) =>
      have : tail.length < rest.length := length_scanQuoted h
      (split tail).map (.string ((joinPieces ps).map String.ofList) :: ·)
  | c :: rest =>
    if isBlank c then split rest
    else match h : Numeral.scan (c :: rest) with
      | none => none
      | some (n, tail) =>
        have : tail.length < rest.length + 1 := Numeral.length_scan h
        (split tail).map (.number n :: ·)
termination_by s.length

end DocQuery.Json
