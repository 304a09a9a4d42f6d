import Scaffold.Yaml.Token.Name

/-!
# From texts to tokens

`Lexeme.ofText` cuts a YAML text into tokens. What looks like a scalar may turn out to be a key
when a colon follows it in the same line, so the places of such scalars are kept until then
(`PendingKey`), and the token that announces the key is put in afterwards. A block is opened by
the first item or key at a new column and closed by the first token to the left of it.
-/

namespace Scaffold.Yaml

/-- A place in a text. -/
structure Cursor where
  rest : List Char
  /-- The number of characters before the place. -/
  offset : Nat
  /-- The line of the place, counted from one. -/
  line : Nat
  /-- The number of characters before the place in its line. -/
  column : Nat
  deriving DecidableEq

namespace Cursor

/-- The character that marks the start of a text does not take up a column. -/
def byteOrderMark : Char := Char.ofNat 0xFEFF

/-- The place one character further. -/
def next (p : Cursor) : Cursor :=
  match p.rest with
  | [] => p
  | c :: rest =>
    if isBreak c then ⟨rest, p.offset + 1, p.line + 1, 0⟩
    else ⟨rest, p.offset + 1, p.line, if c == byteOrderMark then p.column else p.column + 1⟩

/-- The place `n` characters further. -/
def drop : Nat → Cursor → Cursor
  | 0, p => p
  | n + 1, p => drop n p.next

/-- The place before `rest`, which is an end of the text. -/
def before (p : Cursor) (rest : List Char) : Cursor := p.drop (p.rest.length - rest.length)

end Cursor

/-- A token that becomes a key if a colon follows it. -/
structure PendingKey where
  /-- How many tokens come before it. -/
  place : Nat
  /-- Can it be nothing but a key? -/
  isRequired : Bool
  offset : Nat
  line : Nat
  column : Nat
  deriving DecidableEq

/-- What is known while a text is cut into tokens. -/
structure Lexer where
  here : Cursor
  tokens : Array Lexeme
  /-- The columns of the open blocks, the innermost first. -/
  columns : List Nat
  /-- The number of open brackets. -/
  depth : Nat
  /-- The pending keys with the numbers of brackets around them. -/
  keys : List (Nat × PendingKey)
  /-- Can a key start here? -/
  keyAllowed : Bool
  isDone : Bool

namespace Lexer

def start (s : List Char) : Lexer := ⟨⟨s, 0, 1, 0⟩, #[], [], 0, [], true, false⟩

def stop {α : Type} (x : Lexer) (fault : YamlFault) : Except YamlError α :=
  .error ⟨fault, x.here.line⟩

/-- Is the lexer outside of brackets? -/
def inBlock (x : Lexer) : Bool := x.depth == 0

/-- Adds a token that stands here. -/
def add (x : Lexer) (t : Token) : Lexer := { x with tokens := x.tokens.push ⟨t, x.here.line⟩ }

/-- Adds a token and goes on behind its `length` characters. -/
def addMark (x : Lexer) (t : Token) (length : Nat) : Lexer :=
  { x.add t with here := x.here.drop length }

/-- Adds a token that has been read, and goes on before `rest`. -/
def addRead (x : Lexer) (t : Token) (rest : List Char) : Lexer :=
  { x.add t with here := x.here.before rest }

/-! ## Pending keys -/

/-- A key ends in the line in which it starts, and after at most 1024 characters. -/
def isStale (x : Lexer) (k : PendingKey) : Bool :=
  k.line != x.here.line || 1024 < x.here.offset - k.offset

/-- Drops the pending keys that pass a test; none of them may be required. -/
def dropKeys (x : Lexer) (test : Nat × PendingKey → Bool) : Except YamlError Lexer :=
  if x.keys.any fun k ↦ test k && k.2.isRequired then x.stop .noColon
  else .ok { x with keys := x.keys.filter (!test ·) }

/-- Drops the pending key inside the innermost brackets. -/
def dropKey (x : Lexer) : Except YamlError Lexer := x.dropKeys (·.1 == x.depth)

/-- Notes that the next token may be a key. -/
def noteKey (x : Lexer) : Except YamlError Lexer :=
  if !x.keyAllowed then .ok x
  else do
    let isRequired := x.inBlock && x.columns.head? == some x.here.column
    let key := ⟨x.tokens.size, isRequired, x.here.offset, x.here.line, x.here.column⟩
    let x ← x.dropKey
    return { x with keys := (x.depth, key) :: x.keys }

/-! ## Blocks -/

/-- Closes the blocks to the right of a column; all, if there is no column. -/
def closeBlocks (x : Lexer) (column : Option Nat) : Lexer :=
  if !x.inBlock then x
  else
    let isLeft (c : Nat) : Bool := column.all (· < c)
    let closed := x.columns.takeWhile isLeft
    { closed.foldl (fun x _ ↦ x.add .blockEnd) x with columns := x.columns.dropWhile isLeft }

/-- Is a column to the right of all open blocks? -/
def isInner (x : Lexer) (column : Nat) : Bool := x.columns.head?.all (· < column)

/-- Opens a block here, if none is open at this column. -/
def openBlock (x : Lexer) (t : Token) : Lexer :=
  if x.inBlock && x.isInner x.here.column then
    { x.add t with columns := x.here.column :: x.columns }
  else x

/-- Puts a token in front of others. -/
def insert (x : Lexer) (place : Nat) (l : Lexeme) : Lexer :=
  { x with tokens := x.tokens.take place ++ #[l] ++ x.tokens.drop place }

/-- Announces a key that has turned out to be one, and its block if it starts one. -/
def announceKey (x : Lexer) (k : PendingKey) : Lexer :=
  let y := x.insert k.place ⟨.key, k.line⟩
  if x.inBlock && x.isInner k.column then
    { y.insert k.place ⟨.blockMapping, k.line⟩ with columns := k.column :: x.columns }
  else y

/-! ## Tokens -/

/-- Drops spaces, comments and line ends. Outside of brackets a key may start in a new line. -/
def skipIdle : Nat → Lexer → Lexer
  | 0, x => x
  | fuel + 1, x =>
    let rest := skipComment (skipSpaces x.here.rest)
    match lineBreak? rest with
    | none => { x with here := x.here.before rest }
    | some (_, rest) =>
      skipIdle fuel
        { x with here := x.here.before rest, keyAllowed := x.keyAllowed || x.inBlock }

/-- Reads the mark of a document or the end of the text, at which all blocks end. -/
def documentMark (x : Lexer) (t : Token) (length : Nat) : Except YamlError Lexer := do
  let x ← (x.closeBlocks none).dropKey
  return { x.addMark t length with keyAllowed := false }

/-- Reads an opening bracket. -/
def opening (x : Lexer) (t : Token) : Except YamlError Lexer := do
  let x ← x.noteKey
  return { x.addMark t 1 with depth := x.depth + 1, keyAllowed := true }

/-- Reads a closing bracket. One that closes nothing is the last token. -/
def closing (x : Lexer) (t : Token) : Except YamlError Lexer := do
  let x ← x.dropKey
  return { x.addMark t 1 with depth := x.depth - 1, keyAllowed := false, isDone := x.inBlock }

/-- Reads a comma. -/
def comma (x : Lexer) : Except YamlError Lexer := do
  let x ← { x with keyAllowed := true }.dropKey
  return x.addMark .comma 1

/-- Reads the mark of an item or of a key. -/
def entryMark (x : Lexer) (block t : Token) (keyAllowed : Bool) : Except YamlError Lexer := do
  if x.inBlock && !x.keyAllowed then x.stop .notAllowed
  let x ← { x.openBlock block with keyAllowed }.dropKey
  return x.addMark t 1

/-- Reads a colon. -/
def colon (x : Lexer) : Except YamlError Lexer := do
  match x.keys.find? (·.1 == x.depth) with
  | some (_, k) =>
    let x := { x with keys := x.keys.filter (·.1 != x.depth), keyAllowed := false }
    return (x.announceKey k).addMark .value 1
  | none => x.entryMark .blockMapping .value x.inBlock

/-- Reads a token that may be a key, after its mark of `length` characters. -/
def readable (x : Lexer) (length : Nat) (read : List Char → Except YamlFault Named) :
    Except YamlError Lexer := do
  let x ← x.noteKey
  match read (x.here.rest.drop length) with
  | .error fault => x.stop fault
  | .ok (t, rest) => return { x.addRead t rest with keyAllowed := false }

/-- Reads a block of lines. -/
def blockText (x : Lexer) : Except YamlError Lexer := do
  let x ← { x with keyAllowed := true }.dropKey
  match block x.columns.head? x.here.rest with
  | .error fault => x.stop fault
  | .ok (text, rest) => return x.addRead (.scalar (String.ofList text) false) rest

/-- Reads a text without quotes. -/
def plainText (x : Lexer) : Except YamlError Lexer := do
  let x ← x.noteKey
  let least := (x.columns.head?.map (· + 1)).getD 0
  let read := plain (!x.inBlock) least x.here.rest.length x.here.rest
  return { x.addRead (.scalar (String.ofList read.text) true) read.rest with
    keyAllowed := read.atNewLine }

/-- Can a text without quotes start here? -/
def startsPlain (x : Lexer) (c : Char) (rest : List Char) : Bool :=
  !(isGap c || isBreak c || "-?:,[]\x7b\x7d#&*!|>'\"%@\x60".toList.contains c) ||
    (!atWordEnd true rest && (c == '-' || (x.inBlock && (c == '?' || c == ':'))))

/-- Reads the token that starts here. -/
def token (x : Lexer) : Except YamlError Lexer :=
  match x.here.rest with
  | [] => do return { ← x.documentMark .streamEnd 0 with isDone := true }
  | c :: rest =>
    let isWord := atWordEnd true rest
    let inBrackets := !x.inBlock
    let isFirst := x.here.column == 0
    if c == '%' && isFirst then do
      let x ← (x.closeBlocks none).dropKey
      { x with keyAllowed := false }.readable 1 directive
    else if isFirst && atMarker "---" (c :: rest) then x.documentMark .documentStart 3
    else if isFirst && atMarker "..." (c :: rest) then x.documentMark .documentEnd 3
    else if c == '[' then x.opening .flowSequence
    else if c == '\x7b' then x.opening .flowMapping
    else if c == ']' then x.closing .flowSequenceEnd
    else if c == '\x7d' then x.closing .flowMappingEnd
    else if c == ',' then x.comma
    else if c == '-' && isWord then x.entryMark .blockSequence .item true
    else if c == '?' && (inBrackets || isWord) then x.entryMark .blockMapping .key x.inBlock
    else if c == ':' && (inBrackets || isWord) then x.colon
    else if c == '*' then x.readable 1 (anchorName .mention)
    else if c == '&' then x.readable 1 (anchorName .anchor)
    else if c == '!' then x.readable 0 tagToken
    else if (c == '|' || c == '>') && x.inBlock then x.blockText
    else if c == '\'' || c == '"' then
      x.readable 0 fun s ↦ (quoted s).map fun (text, rest) ↦
        (.scalar (String.ofList text) false, rest)
    else if x.startsPlain c rest then x.plainText
    else x.stop .noStart

/-- Goes on to the next token and reads it. -/
def step (x : Lexer) : Except YamlError Lexer := do
  let x := x.skipIdle (x.here.rest.length + 1)
  let x ← x.dropKeys (x.isStale ·.2)
  (x.closeBlocks (some x.here.column)).token

/-- The tokens that cannot change any more: all before the first pending key. -/
def settled (x : Lexer) : List Lexeme :=
  let pending := (x.keys.filter fun k ↦ !x.isStale k.2).map (·.2.place)
  x.tokens.toList.take ((pending.min?).getD x.tokens.size)

/-- Reads all tokens; `fuel` bounds their number. -/
def all : Nat → Lexer → List Lexeme
  | 0, x => x.tokens.toList
  | fuel + 1, x =>
    if x.isDone then x.tokens.toList
    else
      match x.step with
      | .ok x => all fuel x
      | .error e => x.settled ++ [⟨.fault e.fault, e.line⟩]

end Lexer

/-- The tokens of a text. A byte order mark in front is skipped. -/
def Lexeme.ofText (s : List Char) : List Lexeme :=
  let x := Lexer.start s
  let x := if s.head? == some Cursor.byteOrderMark then { x with here := x.here.next } else x
  Lexer.all (s.length + 2) x

end Scaffold.Yaml
