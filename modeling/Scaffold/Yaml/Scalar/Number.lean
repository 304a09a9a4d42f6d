import Scaffold.Binary64.Decimal
import Scaffold.Yaml.Spelling

/-!
# Numbers in YAML texts

Integers in four bases and in base sixty, and decimal fractions, also in base sixty. The form of a
text without quotes decides whether it is a number at all (`isInteger`, `isFraction`); a text with
a tag is read as a number whatever its form (`integer`, `fraction`). Underscores between digits do
not count.
-/

namespace Scaffold.Yaml

open Text

/-! ## Digits -/

/-- The value of digits in a base. -/
def digitsIn (base : Nat) (digits : List Char) : Nat :=
  digits.foldl (fun n c ↦ n * base + hexDigitValue c) 0

/-- Is a character a digit in a base? -/
def isDigitOf (base : Nat) (c : Char) : Bool := isHexDigit c && hexDigitValue c < base

/-- Is a character a digit in a base, or an underscore? -/
def isDigitIn (base : Nat) (c : Char) : Bool := c == '_' || isDigitOf base c

/-- A part of a number in base sixty: one digit, or two with the first below six. -/
def isSixtieth : List Char → Bool
  | [c] => c.isDigit
  | [c, d] => '0' ≤ c && c ≤ '5' && d.isDigit
  | _ => false

/-- Digits that begin with one, and no underscore. -/
def isDigits (s : List Char) : Bool := s.head?.any Char.isDigit && s.all (isDigitIn 10)

/-- The form of an integer in base sixty: its parts have colons between them. -/
def isSixtieths (s : List Char) : Bool :=
  match s.splitOn ':' with
  | first :: second :: rest => isDigits first && (second :: rest).all isSixtieth
  | _ => false

/-- The sign at the start, and what follows it. -/
def signed (s : List Char) : Bool × List Char :=
  match s with
  | '-' :: rest => (true, rest)
  | '+' :: rest => (false, rest)
  | rest => (false, rest)

/-! ## Integers -/

/-- The form of an integer. -/
def isInteger (s : List Char) : Bool :=
  match (signed s).2 with
  | '0' :: 'b' :: c :: digits => (c :: digits).all (isDigitIn 2)
  | '0' :: 'x' :: c :: digits => (c :: digits).all (isDigitIn 16)
  | '0' :: digits => digits.all (isDigitIn 8)
  | digits => isDigits digits || isSixtieths digits

/-- Reads digits in a base. Only in base ten their number is limited. -/
def natural (base : Nat) (digits : List Char) : Except ScalarFault Nat :=
  if digits.isEmpty || !digits.all (isDigitOf base) then
    .error (.notInteger base (String.ofList digits))
  else if base == 10 && maxDigits < digits.length then .error (.oversize digits.length)
  else .ok (digitsIn base digits)

/-- Reads an integer without a sign. -/
def magnitude (s : List Char) : Except ScalarFault Nat :=
  match s with
  | [] => .error .missing
  | '0' :: 'b' :: digits => natural 2 digits
  | '0' :: 'x' :: digits => natural 16 digits
  | '0' :: digits => natural 8 ('0' :: digits)
  | s => (s.splitOn ':').foldlM (fun n part ↦ return n * 60 + (← natural 10 part)) 0

/-- Reads an integer. -/
def integer (s : List Char) : Except ScalarFault Int :=
  let (negative, rest) := signed (s.filter (· != '_'))
  (magnitude rest).map fun n ↦ if negative then -(n : Int) else n

/-! ## Fractions -/

/-- The form of an exponent, which has a sign, or of no exponent. -/
def isExponent (s : List Char) : Bool :=
  match s with
  | [] => true
  | c :: sign :: digits =>
    (c == 'e' || c == 'E') && (sign == '-' || sign == '+') && !digits.isEmpty &&
      digits.all Char.isDigit
  | _ => false

/-- The form of a number with a point. -/
def isFraction (s : List Char) : Bool :=
  let rest := (signed s).2
  let whole := rest.takeWhile (· != '.')
  if [".inf", ".Inf", ".INF"].contains (String.ofList rest) then true
  else if [".nan", ".NaN", ".NAN"].contains (String.ofList s) then true
  else
    match rest.drop whole.length with
    | [] => false
    | _ :: more =>
      let places := more.takeWhile (isDigitIn 10)
      let exponent := more.drop places.length
      if whole.isEmpty then rest.length == s.length && isDigits places && isExponent exponent
      else (isDigits whole && isExponent exponent) || (isSixtieths whole && exponent.isEmpty)

/-- Reads a part of a fraction in base sixty, or the only one. -/
def part (s : List Char) : Except ScalarFault Binary64 :=
  match Binary64.unsigned? false s with
  | some x => .ok x
  | none => .error (.notNumber (String.ofList s))

/-- Adds up the parts of a fraction in base sixty, the last part first, `unit` being what one of
the current part counts. -/
def sixtiethsSum (sum : Binary64) (unit : Nat) : List Binary64 → Binary64
  | [] => sum
  | part :: rest => sixtiethsSum (sum.add (part.scale unit)) (unit * 60) rest

/-- The number with a sign. -/
def withSign (negative : Bool) : Binary64 → Binary64
  | .nan => .nan
  | .infinite _ => .infinite negative
  | .finite _ mantissa exponent => .finite negative mantissa exponent

/-- Reads a fraction without a sign. -/
def fractionMagnitude (s : List Char) : Except ScalarFault Binary64 :=
  if [".inf", "inf", "infinity"].contains (String.ofList s) then .ok (.infinite false)
  else if [".nan", "nan"].contains (String.ofList s) then .ok .nan
  else
    match s.splitOn ':' with
    | [s] => part s
    | parts => (parts.mapM part).map fun parts ↦ sixtiethsSum (.ofInt 0) 1 parts.reverse

/-- Reads a fraction. -/
def fraction (s : List Char) : Except ScalarFault Binary64 :=
  let s := (s.filter (· != '_')).map Char.toLower
  let (negative, rest) := signed s
  if s.isEmpty then .error .missing else (fractionMagnitude rest).map (withSign negative)

end Scaffold.Yaml
