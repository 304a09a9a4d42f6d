/-!
# Decimal digits

The decimal digits of every script (general category Nd, Unicode 14). They come in decades of
ten neighbouring code points, listed by their zeros.
-/

namespace Scaffold.Text

/-- The code points of the digits zero. -/
def zeroDigits : List Nat :=
  [0x30, 0x660, 0x6F0, 0x7C0, 0x966, 0x9E6, 0xA66, 0xAE6, 0xB66, 0xBE6, 0xC66, 0xCE6, 0xD66,
    0xDE6, 0xE50, 0xED0, 0xF20, 0x1040, 0x1090, 0x17E0, 0x1810, 0x1946, 0x19D0, 0x1A80, 0x1A90,
    0x1B50, 0x1BB0, 0x1C40, 0x1C50, 0xA620, 0xA8D0, 0xA900, 0xA9D0, 0xA9F0, 0xAA50, 0xABF0,
    0xFF10, 0x104A0, 0x10D30, 0x11066, 0x110F0, 0x11136, 0x111D0, 0x112F0, 0x11450, 0x114D0,
    0x11650, 0x116C0, 0x11730, 0x118E0, 0x11950, 0x11C50, 0x11D50, 0x11DA0, 0x16A60, 0x16AC0,
    0x16B50, 0x1D7CE, 0x1D7D8, 0x1D7E2, 0x1D7EC, 0x1D7F6, 0x1E140, 0x1E2F0, 0x1E950, 0x1FBF0]

/-- Is the character a decimal digit of some script? -/
def isDecimalDigit (c : Char) : Bool :=
  c.isDigit || zeroDigits.any fun start ↦ start ≤ c.toNat && c.toNat < start + 10

/-- The value of a digit between 0 and 9. -/
def plainDigit? (c : Char) : Option Nat :=
  if c.isDigit then some (c.toNat - '0'.toNat) else none

/-- The value of a decimal digit of some script. -/
def digitValue? (c : Char) : Option Nat :=
  (zeroDigits.find? fun start ↦ start ≤ c.toNat && c.toNat < start + 10).map (c.toNat - ·)

/-- Reads digits in which single underscores may stand between two digits. -/
def digitRun? (digit? : Char → Option Nat) : List Char → Nat → Option Nat
  | [], _ => none
  | [c], n => (digit? c).map (n * 10 + ·)
  | c :: d :: rest, n =>
    match digit? c with
    | none => none
    | some k =>
      if d == '_' then digitRun? digit? rest (n * 10 + k)
      else digitRun? digit? (d :: rest) (n * 10 + k)

/-- No text of an integer may have more digits than this. -/
def maxDigits : Nat := 4300

/-- What is said of an integer whose text has too many digits; of a text that is there, their
number is told. -/
def oversizeInteger (digits : Option Nat) : String :=
  let number := (digits.map fun n ↦ s!": value has {n} digits").getD ""
  s!"Exceeds the limit ({maxDigits} digits) for integer string conversion{number}; " ++
    "use sys.set_int_max_str_digits() to increase the limit"

theorem isDecimalDigit_of_isDigit {c : Char} (h : c.isDigit = true) : isDecimalDigit c = true := by
  simp [isDecimalDigit, h]

end Scaffold.Text
