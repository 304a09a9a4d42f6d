import Scaffold.Yaml.Break
import Scaffold.Yaml.Fault

/-!
# The spellings of scalars

Texts without quotes (`plain`), texts in single and double quotes (`quoted`) and blocks of lines
(`block`). Every reader starts at the first character of the spelling and gives the text and what
follows it. A single line end inside a text counts as a space unless the text is a literal block,
and each further one stands for itself.
-/

namespace Scaffold.Yaml

/-- A text that has been read, and what follows it. -/
abbrev Spelled := List Char × List Char

/-- What a line end and those of the empty lines after it count as. -/
def joinBreaks (c : Char) (breaks : List Char) : List Char :=
  if c != '\n' then c :: breaks else if breaks.isEmpty then [' '] else breaks

/-! ## Texts without quotes -/

def flowMarks : List Char := [',', '[', ']', '\x7b', '\x7d']

/-- Does a character end a text without quotes, given what follows it? Inside brackets (`flow`)
more characters do. -/
def endsPlain (flow : Bool) (c : Char) (rest : List Char) : Bool :=
  isGap c || isBreak c || (flow && (c == '?' || flowMarks.contains c)) ||
    (c == ':' && (atWordEnd true rest || (flow && rest.head?.any flowMarks.contains)))

/-- A part of a text without quotes, up to a blank or its end. -/
def plainWord (flow : Bool) : List Char → Spelled
  | [] => ([], [])
  | c :: rest =>
    if endsPlain flow c rest then ([], c :: rest)
    else
      let (word, left) := plainWord flow rest
      (c :: word, left)

/-- What stands between two parts of a text without quotes. -/
structure PlainGap where
  /-- What the gap counts as; none if it ends at a document marker. -/
  text : Option (List Char)
  rest : List Char
  /-- The column after the gap if a line has ended in it. -/
  column : Option Nat
  deriving DecidableEq

/-- Reads the spaces and line ends after the first line end of a gap; `column` spaces of the
current line have been read. -/
def plainBreaks (column : Nat) : List Char → PlainGap
  | [] => ⟨some [], [], some column⟩
  | c :: rest =>
    if c == ' ' then plainBreaks (column + 1) rest
    else if isBreak c then
      if atAnyMarker rest then ⟨none, rest, some 0⟩
      else
        let gap := plainBreaks 0 rest
        { gap with text := gap.text.map (breakValue c :: ·) }
    else ⟨some [], c :: rest, some column⟩

/-- Reads the gap after a part of a text without quotes. -/
def plainGap (s : List Char) : PlainGap :=
  let spaces := s.takeWhile (· == ' ')
  let rest := s.drop spaces.length
  match lineBreak? rest with
  | none => ⟨some spaces, rest, none⟩
  | some (c, rest) =>
    if atAnyMarker rest then ⟨none, rest, some 0⟩
    else
      let gap := plainBreaks 0 rest
      { gap with text := gap.text.map (joinBreaks c) }

/-- A text without quotes. -/
structure Plain where
  text : List Char
  rest : List Char
  /-- Has a line ended after the last part of the text? -/
  atNewLine : Bool
  deriving DecidableEq

/-- Reads a text without quotes that goes on in lines indented by at least `least` columns;
`fuel` bounds the number of its parts. -/
def plain (flow : Bool) (least : Nat) : Nat → List Char → Plain
  | 0, s => ⟨[], s, false⟩
  | fuel + 1, s =>
    let (word, rest) := plainWord flow s
    let gap := plainGap rest
    let between := gap.text.getD []
    if between.isEmpty || gap.rest.head? == some '#' || (!flow && gap.column.any (· < least)) ||
        (plainWord flow gap.rest).1.isEmpty then
      ⟨word, gap.rest, gap.column.isSome⟩
    else
      let more := plain flow least fuel gap.rest
      ⟨word ++ between ++ more.text, more.rest, more.atNewLine⟩

/-! ## Texts in quotes -/

/-- Reads the empty lines after a line end, and the blanks in front of the next text. -/
def quotedBreaks : Nat → List Char → Except YamlFault Spelled
  | 0, s => .ok ([], s)
  | fuel + 1, s =>
    if atAnyMarker s then .error .marker
    else
      let rest := s.dropWhile isGap
      match lineBreak? rest with
      | some (c, rest) => (quotedBreaks fuel rest).map fun (more, left) ↦ (c :: more, left)
      | none => .ok ([], rest)

/-- Reads blanks and line ends in a text in quotes. -/
def quotedGap (s : List Char) : Except YamlFault Spelled :=
  let blanks := s.takeWhile isGap
  let rest := s.drop blanks.length
  match lineBreak? rest with
  | some (c, rest) =>
    (quotedBreaks rest.length rest).map fun (more, left) ↦ (joinBreaks c more, left)
  | none => .ok (blanks, rest)

/-- What an escape letter stands for. -/
def escaped? (letter : Char) : Option Char :=
  [('0', '\x00'), ('a', '\x07'), ('b', '\x08'), ('t', '\t'), ('\t', '\t'), ('n', '\n'),
    ('v', '\x0b'), ('f', '\x0c'), ('r', '\r'), ('e', '\x1b'), (' ', ' '), ('"', '"'),
    ('\\', '\\'), ('/', '/'), ('N', '\u0085'), ('_', '\u00a0'), ('L', '\u2028'),
    ('P', '\u2029')].lookup letter

/-- How many hexadecimal digits follow an escape letter. -/
def escapeDigits? (letter : Char) : Option Nat := [('x', 2), ('u', 4), ('U', 8)].lookup letter

def isHexDigit (c : Char) : Bool := c.isDigit || ('a' ≤ c.toLower && c.toLower ≤ 'f')

def hexDigitValue (c : Char) : Nat :=
  if c.isDigit then c.toNat - '0'.toNat else c.toLower.toNat - 'a'.toNat + 10

/-- The character with the number that `count` hexadecimal digits write. -/
def hexChar (count : Nat) (s : List Char) : Except YamlFault Char :=
  let digits := s.take count
  if digits.length < count || !digits.all isHexDigit then .error .badEscape
  else
    let n := digits.foldl (fun n c ↦ n * 16 + hexDigitValue c) 0
    if 0x80000000 ≤ n then .error (.scalar .characterWord)
    else if 0x110000 ≤ n then .error (.scalar .character)
    else .ok (Char.ofNat n)

/-- Reads an escape after its backslash. -/
def escape (s : List Char) : Except YamlFault Spelled :=
  match s with
  | [] => .error .badEscape
  | letter :: rest =>
    match escaped? letter, escapeDigits? letter, lineBreak? s with
    | some c, _, _ => .ok ([c], rest)
    | none, some count, _ => (hexChar count rest).map fun c ↦ ([c], rest.drop count)
    | none, none, some (_, rest) => quotedBreaks rest.length rest
    | none, none, none => .error .badEscape

/-- Reads a text up to its closing quote. A doubled single quote stands for one; only in double
quotes a backslash escapes. -/
def quotedFrom (quote : Char) : Nat → List Char → Except YamlFault Spelled
  | 0, _ | _, [] => .error .openQuote
  | fuel + 1, c :: rest =>
    let goOn (part : Spelled) : Except YamlFault Spelled :=
      (quotedFrom quote fuel part.2).map fun (more, left) ↦ (part.1 ++ more, left)
    if c == quote then
      if c == '\'' && rest.head? == some '\'' then goOn ([c], rest.drop 1) else .ok ([], rest)
    else if c == '\\' && quote == '"' then
      match escape rest with
      | .ok part => goOn part
      | .error fault => .error fault
    else if isGap c || isBreak c then
      match quotedGap (c :: rest) with
      | .ok part => goOn part
      | .error fault => .error fault
    else goOn ([c], rest)

/-- Reads a text in quotes. -/
def quoted (s : List Char) : Except YamlFault Spelled :=
  match s with
  | [] => .error .openQuote
  | quote :: rest => quotedFrom quote (rest.length + 1) rest

/-! ## Blocks -/

/-- What becomes of the line ends at the end of a block. -/
inductive Chomping where
  | strip
  | clip
  | keep
  deriving DecidableEq

/-- The signs after the mark of a block. -/
structure BlockHeader where
  chomping : Chomping
  /-- How far the block is indented, if it says so. -/
  increment : Option Nat
  deriving DecidableEq

def chomping? : Char → Option Chomping
  | '+' => some .keep
  | '-' => some .strip
  | _ => none

/-- The digit of an indentation. -/
def increment? (c : Char) : Option Nat := if c.isDigit then some (c.toNat - '0'.toNat) else none

/-- Reads the header of a block up to the end of its line. -/
def blockHeader (s : List Char) : Except YamlFault (BlockHeader × List Char) :=
  let (header, rest) : BlockHeader × List Char :=
    match s.head?.bind chomping?, s.head?.bind increment? with
    | some chomping, _ =>
      match (s.drop 1).head?.bind increment? with
      | some n => (⟨chomping, some n⟩, s.drop 2)
      | none => (⟨chomping, none⟩, s.drop 1)
    | none, some n =>
      match (s.drop 1).head?.bind chomping? with
      | some chomping => (⟨chomping, some n⟩, s.drop 2)
      | none => (⟨.clip, some n⟩, s.drop 1)
    | none, none => (⟨.clip, none⟩, s)
  if header.increment == some 0 || !atWordEnd false rest then .error .badHeader
  else
    let rest := skipComment (skipSpaces rest)
    match rest, lineBreak? rest with
    | [], _ => .ok (header, [])
    | _, some (_, rest) => .ok (header, rest)
    | _, none => .error .badHeader

/-- Empty lines, and the column at which the text after them starts. -/
structure EmptyLines where
  breaks : List Char
  rest : List Char
  column : Nat
  deriving DecidableEq

/-- Reads empty lines and the spaces in front of the first text; also gives the largest column
that was met. -/
def indentationFrom (column widest : Nat) : List Char → EmptyLines × Nat
  | [] => (⟨[], [], column⟩, widest)
  | c :: rest =>
    if c == ' ' then indentationFrom (column + 1) (max widest (column + 1)) rest
    else if isBreak c then
      let (lines, widest) := indentationFrom 0 widest rest
      ({ lines with breaks := breakValue c :: lines.breaks }, widest)
    else (⟨[], c :: rest, column⟩, widest)

/-- Reads empty lines and at most `indent` spaces in each line. -/
def emptyLinesFrom (indent column : Nat) : List Char → EmptyLines
  | [] => ⟨[], [], column⟩
  | c :: rest =>
    if c == ' ' && column < indent then emptyLinesFrom indent (column + 1) rest
    else if isBreak c then
      let lines := emptyLinesFrom indent 0 rest
      { lines with breaks := breakValue c :: lines.breaks }
    else ⟨[], c :: rest, column⟩

/-- The lines of a block. -/
structure BlockLines where
  text : List Char
  /-- The line end of the last line. -/
  lastBreak : List Char
  /-- The empty lines after the last line. -/
  breaks : List Char
  rest : List Char
  deriving DecidableEq

/-- What stands between two lines of a block with `breaks` empty lines between them. Lines that
start with a blank are never folded. -/
def betweenLines (folded : Bool) (line next : List Char) (lineEnd breaks : List Char) : List Char :=
  let isText (s : List Char) : Bool := !s.head?.any isGap
  if folded && lineEnd == ['\n'] && isText line && isText next then
    if breaks.isEmpty then [' '] else []
  else lineEnd

/-- Reads the lines of a block that stand at a column. -/
def blockLines (folded : Bool) (indent : Nat) : Nat → EmptyLines → BlockLines
  | 0, lines => ⟨[], [], lines.breaks, lines.rest⟩
  | fuel + 1, lines =>
    if lines.column != indent || lines.rest.isEmpty then ⟨[], [], lines.breaks, lines.rest⟩
    else
      let line := lines.rest.takeWhile (!isBreak ·)
      let (lineEnd, rest) :=
        match lineBreak? (lines.rest.drop line.length) with
        | some (c, rest) => ([c], rest)
        | none => ([], [])
      let next := emptyLinesFrom indent 0 rest
      if next.column == indent && !next.rest.isEmpty then
        let more := blockLines folded indent fuel next
        { more with
          text := lines.breaks ++ line ++ betweenLines folded line next.rest lineEnd next.breaks ++
            more.text }
      else ⟨lines.breaks ++ line, lineEnd, next.breaks, next.rest⟩

/-- Reads a block inside a collection at the column `indent`, if it is inside one. -/
def block (indent : Option Nat) (s : List Char) : Except YamlFault Spelled :=
  match blockHeader (s.drop 1) with
  | .error fault => .error fault
  | .ok (header, rest) =>
    let least := (indent.map (· + 1)).getD 0 |> max 1
    let (column, lines) :=
      match header.increment with
      | some n => (least + n - 1, emptyLinesFrom (least + n - 1) 0 rest)
      | none =>
        let (lines, widest) := indentationFrom 0 0 rest
        (max least widest, lines)
    let read := blockLines (s.head? == some '>') column (rest.length + 1) lines
    let tail :=
      match header.chomping with
      | .strip => []
      | .clip => read.lastBreak
      | .keep => read.lastBreak ++ read.breaks
    .ok (read.text ++ tail, read.rest)

end Scaffold.Yaml
