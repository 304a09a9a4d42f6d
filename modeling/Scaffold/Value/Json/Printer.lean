import Scaffold.Value.Basic

/-!
# JSON texts

`Value.json` writes a value as JSON: every level two spaces further in, characters outside ASCII
as they are. Mapping keys become texts.
-/

namespace Scaffold.Value

open Text

/-- The characters that have a short escape, and the letters of the escapes. -/
def shortEscapes : List (Char × Char) :=
  [('"', '"'), ('\\', '\\'), ('\n', 'n'), ('\r', 'r'), ('\t', 't'), ('\x08', 'b'), ('\x0c', 'f')]

/-- A character inside a JSON text. -/
def jsonChar (c : Char) : List Char :=
  match shortEscapes.lookup c with
  | some letter => ['\\', letter]
  | none =>
    if c.toNat < 0x20 then
      let digits := Nat.toDigits 16 c.toNat
      '\\' :: 'u' :: List.replicate (4 - digits.length) '0' ++ digits
    else [c]

/-- A text in double quotes. -/
def jsonText (s : String) : String :=
  String.ofList ('"' :: s.toList.flatMap jsonChar ++ ['"'])

/-- The text of a number; the numbers that are not finite have names. -/
def jsonNumber : Binary64 → String
  | .nan => "NaN"
  | .infinite negative => if negative then "-Infinity" else "Infinity"
  | x => x.text

/-- The text that a key becomes. -/
def jsonKey : Value → String
  | .null => "null"
  | .bool b => if b then "true" else "false"
  | .int i => toString i
  | .float x => jsonNumber x
  | .text s => s
  | _ => ""

/-- Items between brackets, each on a line of its own. -/
def jsonBlock (opening closing : String) (level : Nat) (items : List String) : String :=
  if items.isEmpty then opening ++ closing
  else
    let line := "\n" ++ spaces (2 * (level + 1))
    opening ++ line ++ ("," ++ line).intercalate items ++ "\n" ++ spaces (2 * level) ++ closing

mutual

/-- The text of a value inside `level` brackets. -/
def jsonAt (level : Nat) : Value → String
  | .null => "null"
  | .bool b => if b then "true" else "false"
  | .int i => toString i
  | .float x => jsonNumber x
  | .text s => jsonText s
  | .stamp _ => "null"
  | .list items => jsonBlock "[" "]" level (jsonItems (level + 1) items)
  | .map entries => jsonBlock "\x7b" "\x7d" level (jsonEntries (level + 1) entries)

def jsonItems (level : Nat) : List Value → List String
  | [] => []
  | v :: rest => jsonAt level v :: jsonItems level rest

def jsonEntries (level : Nat) : List (Value × Value) → List String
  | [] => []
  | (k, v) :: rest => (jsonText (jsonKey k) ++ ": " ++ jsonAt level v) :: jsonEntries level rest

end

/-- The JSON text of a value. -/
def json (v : Value) : String := jsonAt 0 v

/-- A mapping with text keys. -/
def ofPairs (entries : List (String × Value)) : Value :=
  .map (entries.map fun (key, v) ↦ (.text key, v))

end Scaffold.Value
