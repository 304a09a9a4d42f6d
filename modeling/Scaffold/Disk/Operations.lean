import Scaffold.Disk.Basic
import Scaffold.Text.Utf8

/-!
# Operations on a disk

Asking, reading, writing, copying and deleting. An operation that fails may have made
directories before; a file is either written whole or left as it was.
-/

namespace Scaffold

/-- An operation on a disk that may fail. -/
abbrev DiskOp (α : Type) := ExceptT DiskError (StateM Disk) α

/-- Why a text could not be read from a file. -/
inductive ReadError where
  | disk (e : DiskError)
  | notText (e : Text.DecodeError)
  deriving DecidableEq

namespace Disk

/-! ## Asking -/

/-- What stands at a path. -/
def nodeAt (d : Disk) (p : Path) : Except DiskError Node :=
  match d.locate p with
  | .error fault => .error ⟨fault, p⟩
  | .ok place =>
    match d.node? place with
    | none => .error ⟨.notFound, p⟩
    | some n => .ok n

/-- Does something that passes the test stand at the path? -/
def holds (d : Disk) (p : Path) (test : Node → Bool) : Except DiskError Bool :=
  match d.nodeAt p with
  | .ok n => .ok (test n)
  | .error e =>
    if e.fault == .notFound || e.fault == .notDirectory || e.fault == .nul then .ok false
    else .error e

def isThere (d : Disk) (p : Path) : Except DiskError Bool := d.holds p fun _ ↦ true

def isDir (d : Disk) (p : Path) : Except DiskError Bool := d.holds p (· == .dir)

def isFile (d : Disk) (p : Path) : Except DiskError Bool := d.holds p (· != .dir)

/-- The names in the directory at a path. -/
def list (d : Disk) (p : Path) : List String :=
  match d.locate p with
  | .ok place => d.namesIn place
  | .error _ => []

/-- The number of bytes of all files below a path. -/
def sizeBelow (d : Disk) (p : Path) : Except DiskError Nat :=
  match d.isDir p, d.locate p with
  | .error e, _ => .error e
  | .ok true, .ok place => .ok (((d.filesBelow place).map fun f ↦ f.2.size).foldl (· + ·) 0)
  | .ok _, _ => .ok 0

/-- The location that a path names, whether or not its directories are there. A path that holds
a NUL names none. -/
def absoluteOf (d : Disk) (p : Path) : Except DiskError Path :=
  if pathFault? p == some .nul then .error ⟨.nul, p⟩ else .ok (absolute (d.resolve p))

/-! ## Reading -/

def readBytes (d : Disk) (p : Path) : Except DiskError ByteArray :=
  match d.nodeAt p with
  | .error e => .error e
  | .ok .dir => .error ⟨.isDirectory, p⟩
  | .ok (.file content) => .ok content

/-- Reads a file as a text with unified line ends. -/
def readText (d : Disk) (p : Path) : Except ReadError String :=
  match d.readBytes p with
  | .error e => .error (.disk e)
  | .ok content =>
    match Text.decodeLines content with
    | .error e => .error (.notText e)
    | .ok s => .ok s

end Disk

namespace DiskOp

/-- Asks the disk. -/
def ask {α : Type} (query : Disk → Except DiskError α) : DiskOp α := do
  match query (← get) with
  | .ok a => return a
  | .error e => throw e

/-- The location that a path leads to. -/
def locate (p : Path) : DiskOp Location :=
  ask fun d ↦ (d.locate p).mapError fun fault ↦ ⟨fault, p⟩

/-! ## Directories -/

/-- Makes one directory where nothing stands. -/
def makeDir (p : Path) : DiskOp Unit := do
  let place ← locate p
  match (← get).node? place with
  | some _ => throw ⟨.exists, p⟩
  | none => modify (·.put place .dir)

/-- Makes the directories that are missing on the way from `done` along `rest`. -/
def makeDirsAlong (slashes : Nat) : List String → List String → DiskOp Unit
  | _, [] => return
  | done, part :: rest => do
    let p : Path := ⟨slashes, done ++ [part]⟩
    if !(← ask (·.isDir p)) then makeDir p
    makeDirsAlong slashes (done ++ [part]) rest

/-- How many directories can be made at once on the way to one. -/
def deepest : Nat := 970

/-- Makes a directory and those above it, as far as they are missing. Nothing is made for a path
that no directory can have. -/
def makeDirs (p : Path) : DiskOp Unit := do
  if let some fault := Disk.pathFault? p then throw ⟨fault, p⟩
  let d ← get
  if deepest < d.missingFrom (if p.isAbsolute then [] else d.cwd) p.parts then throw ⟨.tooDeep, p⟩
  makeDirsAlong p.slashes [] p.parts

/-- Makes a directory that must not be there, and those above it. -/
def makeNewDir (p : Path) : DiskOp Unit := do
  makeDirs p.parent
  makeDir p

/-! ## Files -/

/-- Writes a file in a directory that is there. -/
def write (p : Path) (content : ByteArray) : DiskOp Unit := do
  let place ← locate p
  match (← get).node? place with
  | some .dir => throw ⟨.isDirectory, p⟩
  | _ => modify (·.put place (.file content))

/-- The name of the `k`-th temporary file beside a file. -/
def tempName (name : String) (k : Nat) : String :=
  let digits := toString k
  "." ++ name ++ "." ++ Binary64.zeros (8 - digits.length) ++ digits ++ ".tmp"

/-- A path beside `p` at which nothing stands. -/
def freshBeside (d : Disk) (p : Path) : Path :=
  let used := d.list p.parent
  let k := (List.range (used.length + 1)).find? fun k ↦ !used.contains (tempName p.name k)
  p.parent.child (tempName p.name (k.getD 0))

/-- Moves a file onto a path at which no directory stands. -/
def moveFile (source target : Path) : DiskOp Unit := do
  let start ← locate source
  let place ← locate target
  let d ← get
  match d.node? place, d.node? start with
  | some .dir, _ => throw ⟨.isDirectory, target⟩
  | _, some n => set ((d.erase start).put place n)
  | _, none => throw ⟨.notFound, source⟩

/-- Deletes a file. -/
def remove (p : Path) : DiskOp Unit := do
  let place ← locate p
  match (← get).node? place with
  | none => throw ⟨.notFound, p⟩
  | some .dir => throw ⟨.isDirectory, p⟩
  | some (.file _) => modify (·.erase place)

/-- Deletes whatever stands at a path, and all below it. -/
def removeTree (p : Path) : DiskOp Unit := do
  let place ← locate p
  match (← get).node? place with
  | none => throw ⟨.notFound, p⟩
  | some _ => modify (·.eraseTree place)

/-- Writes a file so that it is never seen half written: the content goes into a temporary file
that is moved into place, or removed again if that fails. -/
def writeSafely (p : Path) (content : ByteArray) : DiskOp Unit := do
  makeDirs p.parent
  let temp := freshBeside (← get) p
  write temp content
  tryCatch (moveFile temp p) fun e ↦ do
    remove temp
    throw e

/-- Writes a file in a directory that is made if it is missing. -/
def writeFile (p : Path) (content : ByteArray) (safely : Bool) : DiskOp Unit := do
  if safely then writeSafely p content
  else
    makeDirs p.parent
    write p content

/-- Copies a file onto a path, or into the directory at that path. -/
def copyOnto (source target : Path) : DiskOp Unit := do
  let d ← get
  let target := if ((d.isDir target).toOption).getD false then target.child source.name else target
  match d.locate source, d.locate target with
  | .ok start, .ok place =>
    if start == place && (d.node? start).isSome then throw ⟨.sameFile target, source⟩
  | _, _ => pure ()
  let content ← ask (·.readBytes source)
  write target content

/-- Copies a file; the directories above the target are made if they are missing. -/
def copyFile (source target : Path) : DiskOp Unit := do
  makeDirs target.parent
  copyOnto source target

end DiskOp

end Scaffold
