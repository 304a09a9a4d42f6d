import Scaffold.Text.Digit
import Scaffold.Value.Basic

/-!
# The texts of values

`Value.literal` writes a value so that its kind shows: a text stands in quotes, and what cannot
be printed is escaped. `Value.plain` is the same except that a text stands for itself.
-/

namespace Scaffold.Value

open Text

/-- The hexadecimal digits of `n`, at least `width` of them. -/
def hex (width n : Nat) : List Char :=
  let digits := Nat.toDigits 16 n
  List.replicate (width - digits.length) '0' ++ digits

/-- A character inside a literal quoted by `quote`. -/
def escapeChar (quote : Char) (c : Char) : List Char :=
  if c == quote || c == '\\' then ['\\', c]
  else if c == '\n' then ['\\', 'n']
  else if c == '\t' then ['\\', 't']
  else if c == '\r' then ['\\', 'r']
  else if isPrintable c then [c]
  else if c.toNat < 0x100 then '\\' :: 'x' :: hex 2 c.toNat
  else if c.toNat < 0x10000 then '\\' :: 'u' :: hex 4 c.toNat
  else '\\' :: 'U' :: hex 8 c.toNat

/-- Single quotes, unless the text holds single quotes and no double quote. -/
def quoteFor (s : String) : Char :=
  if s.toList.contains '\'' && !s.toList.contains '"' then '"' else '\''

/-- A text in quotes. -/
def textLiteral (s : String) : String :=
  let quote := quoteFor s
  String.ofList (quote :: s.toList.flatMap (escapeChar quote) ++ [quote])

/-- At least two digits. -/
def twoDigits (n : Nat) : String := if n < 10 then "0" ++ toString n else toString n

/-- At least four digits. -/
def fourDigits (n : Nat) : String :=
  let digits := toString n
  Binary64.zeros (4 - digits.length) ++ digits

end Scaffold.Value

namespace Scaffold.Stamp

open Value

/-- A distance from universal time, such as `+05:30`. -/
def aheadText (minutes : Int) : String :=
  let n := minutes.natAbs
  (if minutes < 0 then "-" else "+") ++ s!"{twoDigits (n / 60)}:{twoDigits (n % 60)}"

/-- A day as `2024-01-15`, a time as `2024-01-15 10:30:00`, with six places if it has a
fraction. -/
def plain : Stamp → String
  | .day y m d => s!"{fourDigits y}-{twoDigits m}-{twoDigits d}"
  | .time y m d hour minute second micro ahead =>
    let fraction := toString micro
    s!"{fourDigits y}-{twoDigits m}-{twoDigits d} " ++
      s!"{twoDigits hour}:{twoDigits minute}:{twoDigits second}" ++
      (if micro == 0 then "" else "." ++ Binary64.zeros (6 - fraction.length) ++ fraction) ++
      (ahead.map aheadText).getD ""

/-- The constructor call that makes a length of time. Seconds are never negative, days may be. -/
def durationLiteral (seconds : Int) : String :=
  let days := seconds / 86400
  let rest := seconds % 86400
  let parts := (if days == 0 then [] else [s!"days={days}"]) ++
    (if rest == 0 then [] else [s!"seconds={rest}"])
  if parts.isEmpty then "datetime.timedelta(0)"
  else "datetime.timedelta(" ++ ", ".intercalate parts ++ ")"

/-- The constructor call that makes a time zone. -/
def zoneLiteral (minutes : Int) : String :=
  if minutes == 0 then "datetime.timezone.utc"
  else "datetime.timezone(" ++ durationLiteral (minutes * 60) ++ ")"

/-- The constructor call that makes the stamp. -/
def literal : Stamp → String
  | .day y m d => s!"datetime.date({y}, {m}, {d})"
  | .time y m d hour minute second micro ahead =>
    let seconds := if second == 0 && micro == 0 then "" else s!", {second}"
    let micros := if micro == 0 then "" else s!", {micro}"
    let zone := (ahead.map fun minutes ↦ ", tzinfo=" ++ zoneLiteral minutes).getD ""
    s!"datetime.datetime({y}, {m}, {d}, {hour}, {minute}" ++ seconds ++ micros ++ zone ++ ")"

end Scaffold.Stamp

namespace Scaffold.Value

open Text

mutual

/-- The literal of a value. -/
def literal : Value → String
  | .null => "None"
  | .bool b => if b then "True" else "False"
  | .int i => toString i
  | .float x => x.text
  | .text s => textLiteral s
  | .stamp t => t.literal
  | .list items => "[" ++ ", ".intercalate (literals items) ++ "]"
  | .map entries => "\x7b" ++ ", ".intercalate (entryLiterals entries) ++ "\x7d"

def literals : List Value → List String
  | [] => []
  | v :: rest => literal v :: literals rest

def entryLiterals : List (Value × Value) → List String
  | [] => []
  | (k, v) :: rest => (literal k ++ ": " ++ literal v) :: entryLiterals rest

end

mutual

/-- Would the literal of a value have an integer with too many digits? -/
def isOversize : Value → Bool
  | .int i => Nat.pow 10 maxDigits ≤ i.natAbs
  | .list items => anyOversize items
  | .map entries => anyEntryOversize entries
  | .null | .bool _ | .float _ | .text _ | .stamp _ => false

def anyOversize : List Value → Bool
  | [] => false
  | v :: rest => isOversize v || anyOversize rest

def anyEntryOversize : List (Value × Value) → Bool
  | [] => false
  | (k, v) :: rest => isOversize k || isOversize v || anyEntryOversize rest

end

/-- The text of a value: a text is itself, a stamp its usual form, anything else its literal. -/
def plain : Value → String
  | .text s => s
  | .stamp t => t.plain
  | v => literal v

end Scaffold.Value
