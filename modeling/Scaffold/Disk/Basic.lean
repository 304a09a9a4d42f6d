import Scaffold.Disk.Path
import Scaffold.Value.Literal

/-!
# The disk

A disk as a value: files and directories under their locations, and a working directory. A
location is the list of the names that lead to it from the root, which is always there. There
are no links, so every file has one location.
-/

namespace Scaffold

/-- The names that lead from the root to a file or directory. -/
abbrev Location := List String

/-- What can stand at a location. -/
inductive Node where
  | dir
  | file (content : ByteArray)

instance : DecidableEq Node
  | .dir, .dir => isTrue rfl
  | .dir, .file _ | .file _, .dir => isFalse nofun
  | .file a, .file b =>
    if h : a.data = b.data then isTrue (congrArg Node.file (ByteArray.ext h))
    else isFalse fun e ↦ h (congrArg ByteArray.data (Node.file.inj e))

/-- Files, directories and the working directory. -/
structure Disk where
  nodes : List (Location × Node)
  cwd : Location

/-- The ways in which an operation on a disk can fail. -/
inductive DiskFault where
  | notFound
  | exists
  | notDirectory
  | isDirectory
  | nameTooLong
  /-- A file would be copied onto itself, which is the given path as well. -/
  | sameFile (target : Path)
  /-- The path holds a character that no path can hold. -/
  | nul
  /-- Too many directories are missing on the way to a new one. -/
  | tooDeep
  deriving DecidableEq

/-- A failed operation and the path it failed at. -/
structure DiskError where
  fault : DiskFault
  path : Path
  deriving DecidableEq

namespace DiskFault

/-- The number and the words of a fault in the POSIX error tables, if it has an entry there. -/
def entry? : DiskFault → Option (Nat × String)
  | .notFound => some (2, "No such file or directory")
  | .exists => some (17, "File exists")
  | .notDirectory => some (20, "Not a directory")
  | .isDirectory => some (21, "Is a directory")
  | .nameTooLong => some (36, "File name too long")
  | .sameFile _ | .nul | .tooDeep => none

end DiskFault

namespace DiskError

def message (e : DiskError) : String :=
  let path := Value.textLiteral e.path.toString
  match e.fault with
  | .sameFile target => path ++ " and " ++ Value.textLiteral target.toString ++ " are the same file"
  | .nul => "embedded null byte"
  | .tooDeep => "maximum recursion depth exceeded"
  | fault => (fault.entry?.map fun (number, words) ↦ s!"[Errno {number}] {words}: {path}").getD path

end DiskError

namespace Disk

/-- What a list of nodes holds for a location. -/
def lookupNode (nodes : List (Location × Node)) (place : Location) : Option Node :=
  match nodes with
  | [] => none
  | (l, n) :: rest => if l = place then some n else lookupNode rest place

/-- Sets what a list of nodes holds for a location. -/
def putNode (nodes : List (Location × Node)) (place : Location) (n : Node) :
    List (Location × Node) :=
  match nodes with
  | [] => [(place, n)]
  | (l, m) :: rest => if l = place then (l, n) :: rest else (l, m) :: putNode rest place n

/-- What stands at a location. -/
def node? (d : Disk) (place : Location) : Option Node :=
  if place.isEmpty then some .dir else lookupNode d.nodes place

def put (d : Disk) (place : Location) (n : Node) : Disk := { d with nodes := putNode d.nodes place n }

/-- Takes away what stands at a location. -/
def erase (d : Disk) (place : Location) : Disk :=
  { d with nodes := d.nodes.filter (·.1 != place) }

/-- Takes away a location and all below it. -/
def eraseTree (d : Disk) (place : Location) : Disk :=
  { d with nodes := d.nodes.filter fun e ↦ !place.isPrefixOf e.1 }

/-- The names in a directory. -/
def namesIn (d : Disk) (place : Location) : List String :=
  d.nodes.filterMap fun (l, _) ↦
    match l.getLast? with
    | some name => if l.dropLast == place then some name else none
    | none => none

/-- All files below a location. -/
def filesBelow (d : Disk) (place : Location) : List (Location × ByteArray) :=
  d.nodes.filterMap fun (l, n) ↦
    match n with
    | .file content => if place.isPrefixOf l then some (l, content) else none
    | .dir => none

/-- Names of more than 255 bytes are too long. -/
def isTooLong (name : String) : Bool := 255 < name.utf8ByteSize

/-- Follows components from a location. Each step starts at a directory; nothing need stand at
the end. -/
def walk (d : Disk) : Location → List String → Except DiskFault Location
  | place, [] => .ok place
  | place, part :: rest =>
    match d.node? place with
    | none => .error .notFound
    | some (.file _) => .error .notDirectory
    | some .dir =>
      if part == ".." then walk d place.dropLast rest
      else if isTooLong part then .error .nameTooLong
      else walk d (place ++ [part]) rest

/-- Paths of more than 4095 bytes are too long. -/
def pathFault? (p : Path) : Option DiskFault :=
  if p.parts.any (·.toList.contains '\x00') then some .nul
  else if 4095 < p.toString.utf8ByteSize then some .nameTooLong
  else none

/-- The location that a path leads to. -/
def locate (d : Disk) (p : Path) : Except DiskFault Location :=
  match pathFault? p with
  | some fault => .error fault
  | none => walk d (if p.isAbsolute then [] else d.cwd) p.parts

/-- The location that a path names, whether or not its directories are there. -/
def resolve (d : Disk) (p : Path) : Location :=
  p.parts.foldl (fun place part ↦ if part == ".." then place.dropLast else place ++ [part])
    (if p.isAbsolute then [] else d.cwd)

/-- The number of components of a path at whose end nothing stands. -/
def missingFrom (d : Disk) : Location → List String → Nat
  | _, [] => 0
  | place, part :: rest =>
    if part == ".." then missingFrom d place.dropLast rest
    else if (d.node? (place ++ [part])).isNone then rest.length + 1
    else missingFrom d (place ++ [part]) rest

/-- A location as an absolute path. -/
def absolute (place : Location) : Path := ⟨1, place⟩

@[simp] theorem node?_nil (d : Disk) : d.node? [] = some .dir := rfl

theorem lookupNode_putNode (nodes : List (Location × Node)) (a b : Location) (n : Node) :
    lookupNode (putNode nodes a n) b = if b = a then some n else lookupNode nodes b := by
  induction nodes with
  | nil => by_cases h : a = b <;> simp [putNode, lookupNode, h, eq_comm]
  | cons e rest ih =>
    by_cases hl : e.1 = a
    · by_cases h : a = b <;> simp [putNode, lookupNode, hl, h, eq_comm]
    · by_cases h : e.1 = b
      · subst h
        simp [putNode, lookupNode, hl]
      · simp [putNode, lookupNode, hl, h, ih]

theorem lookupNode_filter (nodes : List (Location × Node)) (p : Location → Bool) (b : Location) :
    lookupNode (nodes.filter fun e ↦ p e.1) b = if p b then lookupNode nodes b else none := by
  induction nodes with
  | nil => simp [lookupNode]
  | cons e rest ih =>
    by_cases h : e.1 = b
    · subst h
      by_cases hp : p e.1 <;> simp [lookupNode, hp, ih]
    · by_cases hp : p e.1 <;> simp [lookupNode, hp, h, ih]

theorem node?_put (d : Disk) {a : Location} (b : Location) (n : Node) (h : a ≠ []) :
    (d.put a n).node? b = if b = a then some n else d.node? b := by
  by_cases hb : b = []
  · subst hb
    simp [node?, Ne.symm h]
  · simp [node?, put, hb, lookupNode_putNode]

theorem node?_erase (d : Disk) (a : Location) {b : Location} (hb : b ≠ []) :
    (d.erase a).node? b = if b = a then none else d.node? b := by
  have := lookupNode_filter d.nodes (· != a) b
  by_cases h : b = a <;> simp_all [node?, erase]

theorem node?_eraseTree (d : Disk) (a : Location) {b : Location} (hb : b ≠ []) :
    (d.eraseTree a).node? b = if a.isPrefixOf b then none else d.node? b := by
  have := lookupNode_filter d.nodes (fun l ↦ !a.isPrefixOf l) b
  by_cases h : a.isPrefixOf b <;> simp_all [node?, eraseTree]

end Disk

end Scaffold
