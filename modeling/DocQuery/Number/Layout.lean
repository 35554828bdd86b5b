import DocQuery.Number.Shortest

/-!
# Layouts of decimal text

How the digits of a number are set out as text: which exponents are written
positionally, whether a whole number keeps `.0`, and which way a tie between
two shortest decimals goes. Each output format is one `Layout` value.
-/

namespace DocQuery

/-- The decisions of one number format. `positional e` says whether a number
whose leading digit stands for a multiple of `10 ^ e` is written without an
exponent mark. -/
structure Layout where
  positional : Int → Bool
  keepsFraction : Bool
  tie : Tie

namespace Layout

/-- Digits and decimal point, no exponent mark. -/
def positionalText (keepsFraction : Bool) (digits : List Char) (exponent : Int) : List Char :=
  match exponent with
  | .ofNat zeros =>
    digits ++ List.replicate zeros '0' ++ (if keepsFraction then ['.', '0'] else [])
  | .negSucc k =>
    let places := k + 1
    let whole := digits.length - places
    if places < digits.length then digits.take whole ++ '.' :: digits.drop whole
    else '0' :: '.' :: List.replicate (places - digits.length) '0' ++ digits

/-- One digit before the point, then the exponent with its sign. -/
def scientificText (digits : List Char) (lead : Int) : List Char :=
  let fraction := digits.drop 1
  digits.take 1 ++ (if fraction.isEmpty then [] else '.' :: fraction) ++
    ['e', if lead < 0 then '-' else '+'] ++ Nat.toDigits 10 lead.natAbs

/-- The text of a number; infinities are spelled out. -/
def text (l : Layout) (x : Binary64) : String :=
  let body :=
    if x.isFinite then
      let d := x.shortest l.tie
      let digits := Nat.toDigits 10 d.coefficient
      let lead := d.exponent + digits.length - 1
      if l.positional lead then positionalText l.keepsFraction digits d.exponent
      else scientificText digits lead
    else ['i', 'n', 'f']
  String.ofList (if x.negative then '-' :: body else body)

end Layout

end DocQuery
