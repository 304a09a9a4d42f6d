import Scaffold.Text.Digit
import Scaffold.Value.Basic

/-!
# Reading JSON

`Value.ofJson` reads one JSON value. The readers work on the characters that are left and give
back what they leave; a fault is placed by the number of characters that were left when it was
met.
-/

namespace Scaffold

/-- What can be wrong with a JSON text. -/
inductive JsonFault where
  | noValue
  | noName
  | noColon
  | noComma
  | openText
  | rawControl
  | badEscape
  | badCodePoint
  | moreData
  | byteOrderMark
  /-- An integer has too many digits. -/
  | oversize (digits : Nat)
  /-- Too many brackets are open. -/
  | tooDeep
  deriving DecidableEq

def JsonFault.message : JsonFault → String
  | .noValue => "Expecting value"
  | .noName => "Expecting property name enclosed in double quotes"
  | .noColon => "Expecting ':' delimiter"
  | .noComma => "Expecting ',' delimiter"
  | .openText => "Unterminated string starting at"
  | .rawControl => "Invalid control character at"
  | .badEscape => "Invalid \\escape"
  | .badCodePoint => "Invalid \\uXXXX escape"
  | .moreData => "Extra data"
  | .byteOrderMark => "Unexpected UTF-8 BOM (decode using utf-8-sig)"
  | .oversize digits => Text.oversizeInteger (some digits)
  | .tooDeep => "maximum recursion depth exceeded"

/-- A fault and its place in the text. -/
structure JsonError where
  fault : JsonFault
  /-- The number of characters before the place. -/
  position : Nat
  /-- The line of the place, counted from one. -/
  line : Nat
  /-- The place in its line, counted from one. -/
  column : Nat
  deriving DecidableEq

/-- The fault and, if it is one of spelling, its place. -/
def JsonError.message (e : JsonError) : String :=
  match e.fault with
  | .oversize _ | .tooDeep => e.fault.message
  | fault => s!"{fault.message}: line {e.line} column {e.column} (char {e.position})"

namespace Json

/-- A fault, and how many characters were left at its place. -/
structure Stop where
  fault : JsonFault
  left : Nat
  deriving DecidableEq

/-- Stops at the first of the given characters. -/
def stop {α : Type} (fault : JsonFault) (s : List Char) : Except Stop α := .error ⟨fault, s.length⟩

def isSpace (c : Char) : Bool := c == ' ' || c == '\t' || c == '\n' || c == '\r'

def skipSpace (s : List Char) : List Char := s.dropWhile isSpace

/-! ## Texts -/

def hexDigit? (c : Char) : Option Nat :=
  if c.isDigit then some (c.toNat - '0'.toNat)
  else if 'a' ≤ c && c ≤ 'f' then some (c.toNat - 'a'.toNat + 10)
  else if 'A' ≤ c && c ≤ 'F' then some (c.toNat - 'A'.toNat + 10)
  else none

/-- The number that four hexadecimal digits write. -/
def hexNumber? (digits : List Char) : Option Nat :=
  digits.foldl (fun n c ↦ return 16 * (← n) + (← hexDigit? c)) (some 0)

/-- What an escape letter stands for. -/
def escaped? (letter : Char) : Option Char :=
  [('"', '"'), ('\\', '\\'), ('/', '/'), ('b', '\x08'), ('f', '\x0c'), ('n', '\n'), ('r', '\r'),
    ('t', '\t')].lookup letter

/-- Reads the inside of a text up to its closing quote, as code points; `opened` characters were
left before its opening quote. -/
def textFrom (opened : Nat) : List Char → Except Stop (List Nat × List Char)
  | [] => .error ⟨.openText, opened⟩
  | ['\\'] => .error ⟨.openText, opened⟩
  | '\\' :: 'u' :: a :: b :: c :: d :: rest =>
    match hexNumber? [a, b, c, d], rest with
    | some n, _ :: _ => (textFrom opened rest).map fun (units, left) ↦ (n :: units, left)
    | _, _ => stop .badCodePoint ('u' :: a :: b :: c :: d :: rest)
  | '\\' :: c :: rest =>
    if c == 'u' then stop .badCodePoint (c :: rest)
    else
      match escaped? c with
      | some e => (textFrom opened rest).map fun (units, left) ↦ (e.toNat :: units, left)
      | none => stop .badEscape ('\\' :: c :: rest)
  | c :: rest =>
    if c == '"' then .ok ([], rest)
    else if c.toNat < 0x20 then stop .rawControl (c :: rest)
    else (textFrom opened rest).map fun (units, left) ↦ (c.toNat :: units, left)

/-- Characters of code points, in which two surrogates in a row stand for one character. -/
def joinSurrogates : List Nat → List Char
  | [] => []
  | high :: low :: rest =>
    if 0xD800 ≤ high && high < 0xDC00 && 0xDC00 ≤ low && low < 0xE000 then
      Char.ofNat (0x10000 + (high - 0xD800) * 0x400 + (low - 0xDC00)) :: joinSurrogates rest
    else Char.ofNat high :: joinSurrogates (low :: rest)
  | [n] => [Char.ofNat n]

/-- Reads a text whose opening quote has been taken. -/
def text (s : List Char) : Except Stop (String × List Char) :=
  (textFrom (s.length + 1) s).map fun (units, left) ↦ (String.ofList (joinSurrogates units), left)

/-! ## Numbers -/

/-- The longest fraction at the start: a point and digits. -/
def fraction (s : List Char) : List Char :=
  match s with
  | '.' :: rest =>
    let digits := rest.takeWhile Char.isDigit
    if digits.isEmpty then [] else '.' :: digits
  | _ => []

/-- The longest exponent at the start. -/
def exponent (s : List Char) : List Char :=
  match s with
  | c :: rest =>
    if c == 'e' || c == 'E' then
      let sign := (rest.take 1).filter fun d ↦ d == '+' || d == '-'
      let digits := (rest.drop sign.length).takeWhile Char.isDigit
      if digits.isEmpty then [] else c :: sign ++ digits
    else []
  | [] => []

/-- The number at the start of the text. -/
def number (s : List Char) : Except Stop (Value × List Char) :=
  let sign := (s.take 1).filter (· == '-')
  let rest := s.drop sign.length
  let whole :=
    if rest.head? == some '0' then ['0'] else rest.takeWhile Char.isDigit
  if whole.isEmpty then stop .noValue s
  else
    let rest := rest.drop whole.length
    let fraction := fraction rest
    let exponent := exponent (rest.drop fraction.length)
    let left := rest.drop (fraction.length + exponent.length)
    if fraction.isEmpty && exponent.isEmpty then
      if Text.maxDigits < whole.length then stop (.oversize whole.length) s
      else
        let n : Int := Binary64.digitsValue whole
        .ok (.int (if sign.isEmpty then n else -n), left)
    else
      match Binary64.unsigned? (!sign.isEmpty) (whole ++ fraction ++ exponent) with
      | some x => .ok (.float x, left)
      | none => stop .noValue s

/-! ## Values -/

/-- The words and what they stand for. -/
def words : List (String × Value) :=
  [("null", .null), ("true", .bool true), ("false", .bool false), ("NaN", .float .nan),
    ("Infinity", .float (.infinite false)), ("-Infinity", .float (.infinite true))]

/-- The word at the start of the text. -/
def word? (s : List Char) : Option (Value × List Char) :=
  (words.find? fun w ↦ w.1.toList.isPrefixOf s).map fun w ↦ (w.2, s.drop w.1.length)

/-- How many brackets may be open at once. -/
def deepest : Nat := 980

mutual

/-- Reads a value inside `depth` brackets; `fuel` bounds the number of brackets and items. -/
def value (depth : Nat) : Nat → List Char → Except Stop (Value × List Char)
  | 0, s => stop .noValue s
  | fuel + 1, s =>
    match s with
    | '"' :: rest => (text rest).map fun (t, left) ↦ (.text t, left)
    | '[' :: rest =>
      if deepest ≤ depth then stop .tooDeep s
      else
        match skipSpace rest with
        | ']' :: left => .ok (.list [], left)
        | rest => (items (depth + 1) fuel rest).map fun (vs, left) ↦ (.list vs, left)
    | '\x7b' :: rest =>
      if deepest ≤ depth then stop .tooDeep s
      else
        match skipSpace rest with
        | '\x7d' :: left => .ok (.map [], left)
        | rest =>
          (entries (depth + 1) fuel rest).map fun (es, left) ↦ (.map (Value.ofEntries es), left)
    | s =>
      match word? s with
      | some found => .ok found
      | none => number s

/-- Reads the items of a list up to its closing bracket. -/
def items (depth : Nat) : Nat → List Char → Except Stop (List Value × List Char)
  | 0, s => stop .noValue s
  | fuel + 1, s =>
    match value depth fuel s with
    | .error e => .error e
    | .ok (v, rest) =>
      match skipSpace rest with
      | ']' :: left => .ok ([v], left)
      | ',' :: rest => (items depth fuel (skipSpace rest)).map fun (vs, left) ↦ (v :: vs, left)
      | rest => stop .noComma rest

/-- Reads the entries of a mapping up to its closing bracket. -/
def entries (depth : Nat) : Nat → List Char → Except Stop (List (Value × Value) × List Char)
  | 0, s => stop .noName s
  | fuel + 1, s =>
    match s with
    | '"' :: rest =>
      match text rest with
      | .error e => .error e
      | .ok (key, rest) =>
        match skipSpace rest with
        | ':' :: rest =>
          match value depth fuel (skipSpace rest) with
          | .error e => .error e
          | .ok (v, rest) =>
            match skipSpace rest with
            | '\x7d' :: left => .ok ([(.text key, v)], left)
            | ',' :: rest =>
              (entries depth fuel (skipSpace rest)).map fun (es, left) ↦ ((.text key, v) :: es, left)
            | rest => stop .noComma rest
        | rest => stop .noColon rest
    | s => stop .noName s

end

/-- Reads a text that holds one value. -/
def whole (s : List Char) : Except Stop Value :=
  if s.head? == some (Char.ofNat 0xFEFF) then stop .byteOrderMark s
  else
    match value 0 (s.length + 1) (skipSpace s) with
    | .error e => .error e
    | .ok (v, rest) =>
      match skipSpace rest with
      | [] => .ok v
      | rest => stop .moreData rest

/-- The place where `left` characters of the text are left. -/
def place (s : List Char) (stop : Stop) : JsonError :=
  let before := s.take (s.length - stop.left)
  let column := (before.reverse.takeWhile (· != '\n')).length + 1
  ⟨stop.fault, before.length, before.count '\n' + 1, column⟩

end Json

/-- Reads a JSON text. -/
def Value.ofJson (s : String) : Except JsonError Value :=
  (Json.whole s.toList).mapError (Json.place s.toList)

end Scaffold
