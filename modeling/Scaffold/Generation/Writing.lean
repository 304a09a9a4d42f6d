import Scaffold.Digest.Sha256
import Scaffold.Run.Basic
import Scaffold.Text.Lines
import Scaffold.Value.Json.Printer

/-!
# Writing artifacts

An artifact is written unless one is already there and the conflict policy does not allow to
replace it. What is written is recorded with its size and its checksum.
-/

namespace Scaffold

/-- A file that was written. -/
structure FileRecord where
  relativePath : String
  absolutePath : String
  size : Nat
  lines : Nat
  sha256 : String
  deriving DecidableEq

/-- What happened to an artifact. -/
inductive ArtifactStatus where
  | created
  | replaced
  | skipped
  | failed
  deriving DecidableEq

def ArtifactStatus.name : ArtifactStatus → String
  | .created => "created"
  | .replaced => "replaced"
  | .skipped => "skipped"
  | .failed => "failed"

/-- What happened to one artifact of one entity. -/
structure Outcome where
  entity : String
  artifact : String
  path : String
  status : ArtifactStatus
  message : String
  /-- The record of the file, if it was written. -/
  record : Option FileRecord
  deriving DecidableEq

def Outcome.isWritten (o : Outcome) : Bool := o.status == .created || o.status == .replaced

namespace FileRecord

def toValue (r : FileRecord) : Value :=
  .ofPairs [("relative_path", .text r.relativePath), ("absolute_path", .text r.absolutePath),
    ("size_bytes", .int r.size), ("line_count", .int r.lines), ("sha256", .text r.sha256)]

end FileRecord

/-- All files written in a run, and their totals. -/
structure WriteManifest where
  basePath : String
  totalFiles : Nat
  totalBytes : Nat
  totalLines : Nat
  files : List FileRecord
  deriving DecidableEq

namespace WriteManifest

def empty (basePath : String) : WriteManifest := ⟨basePath, 0, 0, 0, []⟩

def add (m : WriteManifest) (r : FileRecord) : WriteManifest :=
  { m with
    totalFiles := m.totalFiles + 1
    totalBytes := m.totalBytes + r.size
    totalLines := m.totalLines + r.lines
    files := m.files ++ [r] }

/-- Adds the record of an outcome, if it has one. -/
def addOutcome (m : WriteManifest) (o : Outcome) : WriteManifest :=
  match o.record with
  | some r => m.add r
  | none => m

def toValue (m : WriteManifest) : Value :=
  .ofPairs [("base_path", .text m.basePath), ("total_files", .int m.totalFiles),
    ("total_bytes", .int m.totalBytes), ("total_lines", .int m.totalLines),
    ("files", .list (m.files.map FileRecord.toValue))]

/-- The manifest as JSON. -/
def json (m : WriteManifest) : String := m.toValue.json

end WriteManifest

/-- A rendered artifact. -/
structure Rendering where
  text : String
  /-- Was the stub missing and a bare one taken in its place? -/
  bare : Bool

/-- Writes artifacts below a root. -/
structure Writer where
  root : Path
  policy : ConflictPolicy
  /-- Who is asked before an artifact is replaced, if anybody is. -/
  answers : Option Answers
  /-- Are files moved into place, so that none is ever seen half written? -/
  safely : Bool

/-- An attempt to write an artifact. -/
structure Attempt where
  /-- The rendered artifact, if it got so far. -/
  rendering : Option Rendering
  result : Except Failure Outcome

namespace Writer

/-- May what is already at a path be replaced? -/
def mayReplace (w : Writer) (relative : Path) : Run Bool := do
  match w.policy, w.answers with
  | .force, _ => return true
  | .prompt, some answers =>
    Run.confirm answers s!"{relative.toString} already exists. Overwrite?"
  | _, _ => return false

/-- Writes a text and records it. -/
def store (w : Writer) (relative : Path) (text : String) : Run FileRecord := do
  let p := w.root ++ relative
  let bytes := Text.encode text
  Run.onDisk (DiskOp.writeFile p bytes w.safely)
  let absolute ← Run.query (·.absoluteOf p)
  return ⟨relative.toString, absolute.toString, bytes.size, Text.countLines text,
    Sha256.hex bytes.toList⟩

/-- Decides whether an artifact is written: no, with a message, or yes, and whether one is
replaced by it. -/
def decide (w : Writer) (entity artifact : String) (relative : Path) : Run (Except String Bool) := do
  let isThere ← Run.query (·.isThere (w.root ++ relative))
  match isThere with
  | false => return .ok false
  | true =>
    match ← w.mayReplace relative with
    | true => return .ok true
    | false =>
      let message := s!"{relative.toString} already exists"
      Run.say (LogLine.warning "writer" s!"{entity} {artifact} skipped: {message}.")
      return .error message

/-- Writes a rendered artifact. -/
def place (w : Writer) (entity artifact : String) (relative : Path) (existed : Bool)
    (text : String) : Run Outcome := do
  let record ← w.store relative text
  let status := if existed then ArtifactStatus.replaced else ArtifactStatus.created
  let path := relative.toString
  Run.say (LogLine.info "writer" s!"{entity} {artifact} {status.name}: {path}")
  return ⟨entity, artifact, path, status, "", some record⟩

/-- Writes an artifact, which is only rendered if it is going to be written. A failure ends the
attempt. -/
def write (w : Writer) (entity artifact : String) (relative : Path) (content : Run Rendering) :
    Run Attempt := do
  match ← Run.attempt (fun _ ↦ true) (w.decide entity artifact relative) with
  | .error e => return ⟨none, .error e⟩
  | .ok (.error message) =>
    return ⟨none, .ok ⟨entity, artifact, relative.toString, .skipped, message, none⟩⟩
  | .ok (.ok existed) =>
    match ← Run.attempt (fun _ ↦ true) content with
    | .error e => return ⟨none, .error e⟩
    | .ok rendering =>
      return ⟨some rendering,
        ← Run.attempt (fun _ ↦ true) (w.place entity artifact relative existed rendering.text)⟩

end Writer

end Scaffold
