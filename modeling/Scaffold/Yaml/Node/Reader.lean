import Scaffold.Yaml.Node
import Scaffold.Yaml.Token

/-!
# From tokens to nodes

`Node.ofLexemes` reads the one document of a list of tokens. A node may carry a tag and an anchor
in front; an alias stands for the node with its anchor, which has to come before it. Between
tokens a node may be missing, and counts as null.
-/

namespace Scaffold.Yaml

/-- No more than this many collections can be open at a time. -/
def maxDepth : Nat := 485

/-- The handles that every document knows, and what they are short for. -/
def usualHandles : List (String × String) := [("!", "!"), ("!!", "tag:yaml.org,2002:")]

/-- What is known while tokens are read. -/
structure Reading where
  lexemes : List Lexeme
  /-- The nodes with anchors; a collection that is still open has none yet. -/
  anchors : List (String × Option Node)
  handles : List (String × String)

/-- Reading from tokens. -/
abbrev Read := StateT Reading (Except YamlError)

/-- Where a node stands. -/
inductive Place where
  | brackets
  /-- A document or an item of a block. -/
  | block
  /-- A key or a value of a block, whose items need no columns of their own. -/
  | entry
  deriving DecidableEq

/-- What stands in front of a node. -/
structure Properties where
  anchor : Option String
  tag : Option String
  deriving DecidableEq

namespace Read

/-! ## Tokens -/

/-- The line of the next token. -/
def line : Read Nat := return ((← get).lexemes.head?.map (·.line)).getD 0

def stop {α : Type} (fault : YamlFault) : Read α := do throw ⟨fault, ← line⟩

/-- The next token; reading stops at a fault. -/
def next : Read Token := do
  match (← get).lexemes with
  | ⟨.fault fault, _⟩ :: _ => stop fault
  | ⟨t, _⟩ :: _ => return t
  | [] => stop .misplaced

def skip : Read Unit := modify fun r ↦ { r with lexemes := r.lexemes.tail }

/-- Goes past a token if it is the next one. -/
def accept (t : Token) : Read Bool := do
  if (← next) == t then
    skip
    return true
  else return false

/-- Goes past a token that has to be the next one. -/
def require (t : Token) : Read Unit := do if !(← accept t) then stop .misplaced

/-- A node that a text leaves out. -/
def empty : Read Node := return .empty (← line)

/-! ## Anchors and tags -/

/-- The full name of a tag. -/
def tagName (handle : Option String) (suffix : String) : Read String := do
  match handle with
  | none => return suffix
  | some handle =>
    match (← get).handles.lookup handle with
    | some meaning => return meaning ++ suffix
    | none => stop .unknownHandle

/-- Reads an anchor and a tag, in either order. -/
def properties : Read Properties := do
  match ← next with
  | .anchor name =>
    skip
    match ← next with
    | .tag handle suffix =>
      skip
      return ⟨some name, some (← tagName handle suffix)⟩
    | _ => return ⟨some name, none⟩
  | .tag handle suffix =>
    skip
    match ← next with
    | .anchor name =>
      skip
      return ⟨some name, some (← tagName handle suffix)⟩
    | _ => return ⟨none, some (← tagName handle suffix)⟩
  | _ => return ⟨none, none⟩

/-- The node with an anchor. -/
def mentioned (name : String) : Read Node := do
  match (← get).anchors.lookup name with
  | some (some n) => return n
  | some none => return .loop (← line)
  | none => stop .unknownAlias

/-- Reads a node, which has an anchor that stands for it from then on. -/
def anchored (name : Option String) (read : Read Node) : Read Node := do
  match name with
  | none => read
  | some name =>
    if (← get).anchors.any (·.1 == name) then stop .repeatedAnchor
    modify fun r ↦ { r with anchors := (name, none) :: r.anchors }
    let n ← read
    modify fun r ↦ { r with anchors := (name, some n) :: r.anchors }
    return n

end Read

namespace Properties

/-- Is nothing said about how the node is read? -/
def isOpen (p : Properties) : Bool := p.tag.all (· == "!")

/-- The tag of a collection. -/
def collection (p : Properties) (usual : Tag) : Tag :=
  if p.isOpen then usual else Tag.ofName (p.tag.getD "")

/-- The tag of a scalar. Without a tag a text in quotes is a text. -/
def scalar (p : Properties) (text : String) (isPlain : Bool) : Tag :=
  match p.tag with
  | none => if isPlain then Tag.ofPlain text else .text
  | some "!" => Tag.ofPlain text
  | some name => Tag.ofName name

end Properties

namespace Read

/-! ## Nodes -/

mutual

/-- Reads a node with `depth` collections around it. -/
def parse : Nat → Nat → Place → Read Node
  | 0, _, _ => stop .tooDeep
  | fuel + 1, depth, place => do
    if maxDepth ≤ depth then stop .tooDeep
    if let .mention name ← next then
      skip
      return ← mentioned name
    let p ← properties
    let line ← line
    let isBlock := place != .brackets
    match ← next with
    | .scalar text isPlain =>
      skip
      anchored p.anchor (return .scalar line (p.scalar text isPlain) text)
    | .flowSequence =>
      skip
      anchored p.anchor
        (return .sequence line (p.collection .list) (← flowItems fuel (depth + 1) true))
    | .flowMapping =>
      skip
      anchored p.anchor
        (return .ofEntries line (p.collection .map) (← flowEntries fuel (depth + 1) true))
    | t =>
      if t == .blockSequence && isBlock then
        skip
        anchored p.anchor
          (return .sequence line (p.collection .list) (← blockItems fuel (depth + 1) [.blockEnd]))
      else if t == .blockMapping && isBlock then
        skip
        anchored p.anchor
          (return .ofEntries line (p.collection .map) (← blockEntries fuel (depth + 1)))
      else if t == .item && place == .entry then
        anchored p.anchor
          (return .sequence line (p.collection .list)
            (← blockItems fuel (depth + 1) [.key, .value, .blockEnd]))
      else if p.anchor.isSome || p.tag.isSome then
        anchored p.anchor (return .scalar line (p.scalar "" true) "")
      else stop .noContent

/-- Reads a node, or none before one of the tokens `ends`. -/
def parseOr : Nat → Nat → Place → List Token → Read Node
  | 0, _, _, _ => stop .tooDeep
  | fuel + 1, depth, place, ends => do
    if ends.contains (← next) then empty else parse fuel depth place

/-- Reads a key, which has been announced, and its value. -/
def parseEntry : Nat → Nat → Place → List Token → Read (Node × Node)
  | 0, _, _, _ => stop .tooDeep
  | fuel + 1, depth, place, ends => do
    let key ← parseOr fuel depth place (.value :: ends)
    let value ← if ← accept .value then parseOr fuel depth place (.value :: ends) else empty
    return (key, value)

/-- Reads the items of a block. Items with columns of their own end at `blockEnd`, others before
one of several tokens. -/
def blockItems : Nat → Nat → List Token → Read (List Node)
  | 0, _, _ => stop .tooDeep
  | fuel + 1, depth, ends => do
    if ← accept .item then
      let n ← parseOr fuel depth .block (.item :: ends)
      return n :: (← blockItems fuel depth ends)
    if ends == [.blockEnd] then require .blockEnd
    return []

/-- Reads the entries of a block. -/
def blockEntries : Nat → Nat → Read (List (Node × Node))
  | 0, _ => stop .tooDeep
  | fuel + 1, depth => do
    if ← accept .key then
      let e ← parseEntry fuel depth .entry [.key, .blockEnd]
      return e :: (← blockEntries fuel depth)
    require .blockEnd
    return []

/-- Reads items in brackets; a key among them is a mapping of one entry. -/
def flowItems : Nat → Nat → Bool → Read (List Node)
  | 0, _, _ => stop .tooDeep
  | fuel + 1, depth, isFirst => do
    let ends : List Token := [.comma, .flowSequenceEnd]
    if ← accept .flowSequenceEnd then return []
    if !isFirst then require .comma
    if ← accept .flowSequenceEnd then return []
    let line ← line
    let n ←
      if ← accept .key then
        pure (Node.ofEntries line .map [← parseEntry fuel (depth + 1) .brackets ends])
      else parse fuel depth .brackets
    return n :: (← flowItems fuel depth false)

/-- Reads entries in brackets; one that is not announced has no value. -/
def flowEntries : Nat → Nat → Bool → Read (List (Node × Node))
  | 0, _, _ => stop .tooDeep
  | fuel + 1, depth, isFirst => do
    let ends : List Token := [.comma, .flowMappingEnd]
    if ← accept .flowMappingEnd then return []
    if !isFirst then require .comma
    if ← accept .flowMappingEnd then return []
    let e ←
      if ← accept .key then parseEntry fuel depth .brackets ends
      else pure (← parse fuel depth .brackets, ← empty)
    return e :: (← flowEntries fuel depth false)

end

/-! ## Documents -/

/-- Reads the directives of a document. -/
def directives : Nat → Bool → List (String × String) → Read Unit
  | 0, _, _ => stop .tooDeep
  | fuel + 1, isVersioned, handles => do
    match ← next with
    | .directive (.version major) =>
      if isVersioned || major != 1 then stop .badDirective
      skip
      directives fuel true handles
    | .directive (.handle handle meaning) =>
      if (handles.lookup handle).isSome then stop .badDirective
      skip
      directives fuel isVersioned ((handle, meaning) :: handles)
    | .directive .other =>
      skip
      directives fuel isVersioned handles
    | _ => modify fun r ↦ { r with handles := handles ++ usualHandles }

/-- Goes past the marks that end a document. -/
def skipEnds : Nat → Read Unit
  | 0 => stop .tooDeep
  | fuel + 1 => do if ← accept .documentEnd then skipEnds fuel

/-- Reads the content of a document, which may be missing after its mark. -/
def content (fuel : Nat) : Read Node := do
  match ← next with
  | .directive _ | .documentStart | .documentEnd | .streamEnd => empty
  | _ => parse fuel 0 .block

/-- Reads the only document. A mark and directives may stand in front of it. -/
def document (fuel : Nat) : Read Node := do
  let n ←
    match ← next with
    | .streamEnd => empty
    | .directive _ | .documentStart =>
      directives fuel false []
      require .documentStart
      content fuel
    | _ => parse fuel 0 .block
  skipEnds fuel
  if (← next) != .streamEnd then stop .secondDocument
  return n

end Read

/-- The node that a list of tokens describes. -/
def Node.ofLexemes (lexemes : List Lexeme) : Except YamlError Node :=
  (Read.document (3 * lexemes.length + 10)).run' ⟨lexemes, [], usualHandles⟩

end Scaffold.Yaml
