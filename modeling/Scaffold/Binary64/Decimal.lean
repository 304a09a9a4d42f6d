import Scaffold.Binary64.Basic

/-!
# Decimal texts of binary numbers

The shortest decimal that reads back as a number, its text, and the reading of decimal texts.
`shortest` searches the decimal grids of 1, 2, … 17 digits: if any point of a grid reads back,
one of the two neighbours of the number on that grid does.
-/

namespace Scaffold.Binary64

/-- The place of the leading digit of a positive fraction: `10 ^ p ≤ num / den < 10 ^ (p + 1)`. -/
def leadingPlace (num den : Nat) : Int :=
  if den ≤ num then ((Nat.toDigits 10 (num / den)).length : Int) - 1
  else -((Nat.toDigits 10 ((den - 1) / num)).length : Int)

/-- The point of the grid of decimals with `count` digits that stands for `num / den`, if one
of the two neighbours reads back as `x`; the nearer one of two, and at a tie the even one. -/
def onGrid? (x : Binary64) (negative : Bool) (num den count : Nat) : Option (Nat × Int) :=
  let unit : Int := leadingPlace num den - count + 1
  let (n, d) :=
    if unit < 0 then (num * Nat.pow 10 (-unit).toNat, den)
    else (num, den * Nat.pow 10 unit.toNat)
  let low := n / d
  let reads := fun digits ↦ ofDecimal negative digits unit == x
  match reads low, reads (low + 1) with
  | true, true => some (roundDiv n d, unit)
  | true, false => some (low, unit)
  | false, true => some (low + 1, unit)
  | false, false => none

/-- Removes the final zeros of at most `fuel` digits. -/
def dropZeros : Nat → Nat → Int → Nat × Int
  | 0, digits, exponent => (digits, exponent)
  | fuel + 1, digits, exponent =>
    if digits != 0 && digits % 10 == 0 then dropZeros fuel (digits / 10) (exponent + 1)
    else (digits, exponent)

/-- The digits and the exponent of the shortest decimal that reads back as the number. -/
def shortest (negative : Bool) (mantissa : Nat) (exponent : Int) : Nat × Int :=
  let (num, den) := ratio mantissa exponent
  match (List.range 17).findSome? fun k ↦
      onGrid? (.finite negative mantissa exponent) negative num den (k + 1) with
  | some (digits, place) => dropZeros 17 digits place
  | none => (0, 0)

/-- An exponent with a sign and at least two digits. -/
def exponentText (e : Int) : String :=
  let digits := toString e.natAbs
  (if e < 0 then "e-" else "e+") ++ (if digits.length < 2 then "0" ++ digits else digits)

/-- Zeros as text. -/
def zeros (n : Nat) : String := String.ofList (List.replicate n '0')

/-- A decimal in positional notation while its leading digit stands between the fourth place
after the point and the sixteenth before it, otherwise with an exponent; the positional form
of an integer ends in `.0`. -/
def decimalText (digits : Nat) (exponent : Int) : String :=
  let figures := toString digits
  let point : Int := figures.length + exponent
  if point ≤ -4 || 16 < point then
    let more := (figures.drop 1).toString
    (figures.take 1).toString ++ (if more == "" then "" else "." ++ more) ++ exponentText (point - 1)
  else if point ≤ 0 then "0." ++ zeros (-point).toNat ++ figures
  else if exponent ≥ 0 then figures ++ zeros exponent.toNat ++ ".0"
  else (figures.take point.toNat).toString ++ "." ++ (figures.drop point.toNat).toString

/-- The text of a number: its shortest decimal, `inf` or `nan`. -/
def text : Binary64 → String
  | .nan => "nan"
  | .infinite negative => if negative then "-inf" else "inf"
  | .finite negative mantissa exponent =>
    let sign := if negative then "-" else ""
    if mantissa == 0 then sign ++ "0.0"
    else
      let (digits, place) := shortest negative mantissa exponent
      sign ++ decimalText digits place

/-- The value of a run of ASCII digits. -/
def digitsValue (digits : List Char) : Nat :=
  digits.foldl (fun n c ↦ n * 10 + (c.toNat - '0'.toNat)) 0

/-- Reads an optional exponent that ends the text. -/
def exponent? : List Char → Option Int
  | [] => some 0
  | c :: rest =>
    if c == 'e' || c == 'E' then
      let (negative, figures) :=
        match rest with
        | '-' :: more => (true, more)
        | '+' :: more => (false, more)
        | more => (false, more)
      if figures.isEmpty || !figures.all Char.isDigit then none
      else
        let n : Int := digitsValue figures
        some (if negative then -n else n)
    else none

/-- Reads digits with an optional point and an optional exponent; there is a digit beside the
point. -/
def unsigned? (negative : Bool) (s : List Char) : Option Binary64 :=
  let whole := s.takeWhile Char.isDigit
  let rest := s.dropWhile Char.isDigit
  let (fraction, rest) :=
    match rest with
    | '.' :: more => (more.takeWhile Char.isDigit, more.dropWhile Char.isDigit)
    | more => ([], more)
  if whole.isEmpty && fraction.isEmpty then none
  else
    (exponent? rest).map fun e ↦
      ofDecimal negative (digitsValue (whole ++ fraction)) (e - fraction.length)

/-- Reads a decimal text, or one of the texts `inf` and `nan`. -/
def ofText? (s : String) : Option Binary64 :=
  let (negative, rest) :=
    match s.toList with
    | '-' :: more => (true, more)
    | '+' :: more => (false, more)
    | more => (false, more)
  if rest == "inf".toList then some (.infinite negative)
  else if rest == "nan".toList then some .nan
  else unsigned? negative rest

end Scaffold.Binary64
