import Scaffold.Disk.Operations

/-!
# Path patterns

Patterns of paths as they are written in shells: `*` stands for any text inside a name, `?`
for one character, brackets for one of several characters, and a component `**` for any number
of directories; `..` leads to the directory above. A slash at the end asks for directories.
`matchesName` decides a single name; `Disk.glob` finds all paths that match.
-/

namespace Scaffold

/-- A part of a name pattern. -/
inductive NamePart where
  | char (c : Char)
  | one
  | any
  /-- One character in one of the ranges, or, if negated, in none. -/
  | among (negated : Bool) (ranges : List (Char × Char))
  deriving DecidableEq

namespace NamePart

/-! ## Brackets

A hyphen between two characters makes a range of them. The text in the brackets is therefore cut
into chunks at such hyphens: the last character of a chunk and the first of the next one are the
ends of a range, and every character of a chunk stands for itself.
-/

/-- Cuts at the hyphens that make ranges. The first `skip` characters and the two after such a
hyphen cannot be one; `chunk` holds what has been read of the current chunk, reversed. -/
def chunksAfter : Nat → List Char → List Char → List (List Char)
  | _, chunk, [] => [chunk.reverse]
  | 0, chunk, '-' :: rest => chunk.reverse :: chunksAfter 2 [] rest
  | skip, chunk, c :: rest => chunksAfter (skip - 1) (c :: chunk) rest

/-- A hyphen at the end stands for itself. -/
def joinLast : List (List Char) → List (List Char)
  | [chunk, []] => [chunk ++ ['-']]
  | chunk :: rest => chunk :: joinLast rest
  | [] => []

/-- Takes out the ranges that are empty, with their ends. -/
def dropEmptyRanges : List (List Char) → List (List Char)
  | [] => []
  | chunk :: rest =>
    match dropEmptyRanges rest with
    | [] => [chunk]
    | next :: more =>
      match chunk.getLast?, next.head? with
      | some a, some b =>
        if b < a then (chunk.dropLast ++ next.tail) :: more else chunk :: next :: more
      | _, _ => chunk :: next :: more

/-- The chunks of the text in brackets. -/
def chunks (inner : List Char) : List (List Char) :=
  dropEmptyRanges (joinLast (chunksAfter (if inner.head? == some '!' then 2 else 1) [] inner))

/-- The ranges that chunks stand for. -/
def ranges : List (List Char) → List (Char × Char)
  | [] => []
  | chunk :: rest =>
    let between :=
      match chunk.getLast?, rest.head?.bind List.head? with
      | some a, some b => [(a, b)]
      | none, some _ => [('-', '-')]
      | _, none => []
    chunk.map (fun c ↦ (c, c)) ++ between ++ ranges rest

/-- The part that brackets stand for; an exclamation mark in front negates. -/
def ofBrackets (inner : List Char) : NamePart :=
  match chunks inner with
  | ('!' :: chunk) :: rest => among true (ranges (chunk :: rest))
  | found => among false (ranges found)

/-- What follows an opening bracket up to its closing one, which cannot come first. -/
def inBrackets? (s : List Char) : Option (List Char) :=
  let (start, rest) := if s.head? == some '!' then (['!'], s.tail) else ([], s)
  match rest with
  | [] => none
  | c :: more =>
    if more.contains ']' then some (start ++ c :: more.takeWhile (· != ']')) else none

/-! ## Name patterns -/

/-- Reads a name pattern whose first `skip` characters have been read. -/
def readAfter : Nat → List Char → List NamePart
  | _, [] => []
  | skip + 1, _ :: rest => readAfter skip rest
  | 0, '*' :: rest => any :: readAfter 0 rest
  | 0, '?' :: rest => one :: readAfter 0 rest
  | 0, '[' :: rest =>
    match inBrackets? rest with
    | some inner => ofBrackets inner :: readAfter (inner.length + 1) rest
    | none => char '[' :: readAfter 0 rest
  | 0, c :: rest => char c :: readAfter 0 rest

def read (pattern : String) : List NamePart := readAfter 0 pattern.toList

/-- Does one character fit a part? -/
def fits (part : NamePart) (c : Char) : Bool :=
  match part with
  | char d => c == d
  | one | any => true
  | among negated ranges => ranges.any (fun r ↦ r.1 ≤ c && c ≤ r.2) != negated

/-- Does `rest` fit after some characters of the text? -/
def anySuffix (rest : List Char → Bool) : List Char → Bool
  | [] => rest []
  | c :: s => rest (c :: s) || anySuffix rest s

/-- Does a name match a pattern? -/
def matchesName : List NamePart → List Char → Bool
  | [], s => s.isEmpty
  | any :: rest, s => anySuffix (matchesName rest) s
  | _ :: _, [] => false
  | part :: rest, c :: s => part.fits c && matchesName rest s

end NamePart

/-- A component of a path pattern. -/
inductive PathPart where
  | literal (name : String)
  | pattern (parts : List NamePart)
  | anywhere
  | above
  deriving DecidableEq

/-- A path pattern. -/
structure PathPattern where
  parts : List PathPart
  /-- Do only directories match? -/
  dirsOnly : Bool
  deriving DecidableEq

/-- Why a path pattern cannot be used. -/
inductive PatternError where
  | absolute
  | empty
  /-- The pattern has no component, and yet a slash at its end. -/
  | nameless
  /-- `**` stands inside a longer component. -/
  | inside
  deriving DecidableEq

def PathPart.ofComponent (component : String) : Except PatternError PathPart :=
  if component == "**" then .ok .anywhere
  else if component == ".." then .ok .above
  else if Text.contains component "**" then .error .inside
  else if component.toList.any fun c ↦ c == '*' || c == '?' || c == '[' then
    .ok (.pattern (NamePart.read component))
  else .ok (.literal component)

/-- Reads a path pattern. -/
def PathPattern.read (pattern : String) : Except PatternError PathPattern := do
  let p := Path.ofString pattern
  let dirsOnly := Text.endsWith pattern "/"
  if p.isAbsolute then throw .absolute
  if p.parts.isEmpty then throw (if dirsOnly then .nameless else .empty)
  return ⟨← p.parts.mapM PathPart.ofComponent, dirsOnly⟩

namespace Disk

/-- The entries of the directory at a path. -/
def entriesAt (d : Disk) (p : Path) : Except DiskError (List (String × Node)) := do
  if !(← d.isDir p) then return []
  let place ← (d.locate p).mapError fun fault ↦ ⟨fault, p⟩
  return (d.namesIn place).filterMap fun name ↦
    (d.node? (place ++ [name])).map fun n ↦ (name, n)

/-- A directory and all directories below it, as paths. -/
def dirsFrom (d : Disk) (p : Path) : List Path :=
  match d.locate p with
  | .error _ => []
  | .ok place =>
    p :: d.nodes.filterMap fun (l, n) ↦
      if n == .dir && place.isPrefixOf l && l != place then
        some ⟨p.slashes, p.parts ++ l.drop place.length⟩
      else none

/-- All paths below the directory `p` that match the components, in any order. -/
def globFrom (d : Disk) (dirsOnly : Bool) : List PathPart → Path → Except DiskError (List Path)
  | [], p => .ok [p]
  | part :: rest, p => do
    let fits (n : Node) : Bool := !(dirsOnly || !rest.isEmpty) || n == .dir
    match part with
    | .literal name =>
      if ← d.holds (p.child name) fits then globFrom d dirsOnly rest (p.child name)
      else return []
    | .pattern parts =>
      let entries ← d.entriesAt p
      let found := entries.filter fun (name, n) ↦ fits n && NamePart.matchesName parts name.toList
      return (← found.mapM fun (name, _) ↦ globFrom d dirsOnly rest (p.child name)).flatten
    | .anywhere => return (← (d.dirsFrom p).mapM (globFrom d dirsOnly rest)).flatten
    | .above => globFrom d dirsOnly rest (p.child "..")

/-- All paths below `p` that match a pattern, each once, in the order of paths. -/
def glob (d : Disk) (p : Path) (pattern : PathPattern) : Except DiskError (List Path) := do
  if !(← d.isDir p) then return []
  return (← d.globFrom pattern.dirsOnly pattern.parts p).eraseDups.mergeSort Path.le

end Disk

end Scaffold
