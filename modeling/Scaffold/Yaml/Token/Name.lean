import Scaffold.Text.Utf8
import Scaffold.Yaml.Spelling
import Scaffold.Yaml.Token

/-!
# Names in YAML texts

Anchors, aliases, tags and directives. Every reader starts after the mark of the token and gives
the token and what follows it.
-/

namespace Scaffold.Yaml

/-- A token that has been read, and what follows it. -/
abbrev Named := Token × List Char

def isNameChar (c : Char) : Bool := c.isAlphanum || c == '-' || c == '_'

/-- The name at the start of a text, and what follows it. -/
def nameOf (s : List Char) : Spelled := (s.takeWhile isNameChar, s.dropWhile isNameChar)

/-- Reads the name of an anchor or an alias. -/
def anchorName (make : String → Token) (s : List Char) : Except YamlFault Named :=
  let (name, rest) := nameOf s
  if name.isEmpty then .error .badName
  else if atWordEnd true rest || rest.head?.any "?:,]\x7d%@\x60".toList.contains then
    .ok (make (String.ofList name), rest)
  else .error .badName

/-! ## Tags -/

def isUriChar (c : Char) : Bool := c.isAlphanum || "-;/?:@&=+$,_.!~*'()[]%".toList.contains c

/-- The bytes of the escapes at the start of a text, and what follows them. -/
def uriBytes : List Char → Option (List UInt8 × List Char)
  | '%' :: a :: b :: rest =>
    if isHexDigit a && isHexDigit b then
      (uriBytes rest).map fun (bytes, left) ↦
        (UInt8.ofNat (hexDigitValue a * 16 + hexDigitValue b) :: bytes, left)
    else none
  | '%' :: _ => none
  | rest => some ([], rest)

/-- Reads the characters and escapes of a tag; `fuel` bounds their number. -/
def uriFrom : Nat → List Char → Except YamlFault Spelled
  | 0, s => .ok ([], s)
  | fuel + 1, s =>
    match s with
    | [] => .ok ([], [])
    | '%' :: _ =>
      match uriBytes s with
      | none => .error .badTag
      | some (bytes, rest) =>
        match Text.decode ⟨bytes.toArray⟩ with
        | .ok text => (uriFrom fuel rest).map fun (more, left) ↦ (text.toList ++ more, left)
        | .error _ => .error .badTag
    | c :: rest =>
      if isUriChar c then (uriFrom fuel rest).map fun (more, left) ↦ (c :: more, left)
      else .ok ([], s)

/-- Reads a tag, or the part of one after its handle. -/
def uri (s : List Char) : Except YamlFault (String × List Char) :=
  match uriFrom s.length s with
  | .error fault => .error fault
  | .ok ([], _) => .error .badTag
  | .ok (text, rest) => .ok (String.ofList text, rest)

/-- Reads a handle: one exclamation mark before a space, or a name between two of them. -/
def tagHandle (s : List Char) : Except YamlFault (String × List Char) :=
  match s with
  | '!' :: rest =>
    if rest.head? == some ' ' then .ok ("!", rest)
    else
      let (name, left) := nameOf rest
      match left with
      | '!' :: left => .ok (String.ofList ('!' :: name ++ ['!']), left)
      | _ => .error .badTag
  | _ => .error .badTag

/-- Reads a tag whose exclamation mark is the first character. -/
def tagToken (s : List Char) : Except YamlFault Named := do
  let rest := s.drop 1
  let (handle, suffix, left) ←
    if rest.head? == some '<' then do
      let (suffix, left) ← uri (rest.drop 1)
      if left.head? != some '>' then throw .badTag
      pure (none, suffix, left.drop 1)
    else if atWordEnd true rest then pure (none, "!", rest)
    else do
      let word := rest.takeWhile fun c ↦ c != ' ' && !isBreak c
      let (handle, left) ← if word.contains '!' then tagHandle s else pure ("!", rest)
      let (suffix, left) ← uri left
      pure (some handle, suffix, left)
  if atWordEnd false left then return (.tag handle suffix, left) else throw .badTag

/-! ## Directives -/

def number (s : List Char) : Except YamlFault (Nat × List Char) :=
  let digits := s.takeWhile Char.isDigit
  if digits.isEmpty then .error .badDirective
  else .ok (Binary64.digitsValue digits, s.drop digits.length)

/-- Reads a version of two numbers. -/
def version (s : List Char) : Except YamlFault (Directive × List Char) := do
  let (major, rest) ← number (skipSpaces s)
  if rest.head? != some '.' then throw .badDirective
  let (_, rest) ← number (rest.drop 1)
  if atWordEnd false rest then return (.version major, rest) else throw .badDirective

/-- Reads a handle and what it is short for. -/
def handleMeaning (s : List Char) : Except YamlFault (Directive × List Char) := do
  let (handle, rest) ← tagHandle (skipSpaces s)
  if rest.head? != some ' ' then throw .badDirective
  let (meaning, rest) ← uri (skipSpaces rest)
  if atWordEnd false rest then return (.handle handle meaning, rest) else throw .badDirective

/-- Reads a directive and the rest of its line. -/
def directive (s : List Char) : Except YamlFault Named := do
  let (name, rest) := nameOf s
  if name.isEmpty || !atWordEnd false rest then throw .badDirective
  let (d, rest) ←
    match String.ofList name with
    | "YAML" => version rest
    | "TAG" => handleMeaning rest
    | _ => pure (.other, rest.dropWhile (!isBreak ·))
  match skipComment (skipSpaces rest) with
  | [] => return (.directive d, [])
  | c :: left => if isBreak c then return (.directive d, left) else throw .badDirective

end Scaffold.Yaml
