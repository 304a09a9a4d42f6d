import Scaffold.Route.File
import Scaffold.Value.Json.Printer

/-!
# Backup manifests

A backup says in its manifest, for every path that a run may touch, whether a file was there and
where its copy lies. The manifest is kept as JSON. Paths, errors and patterns are read as they
stand in the file, null included, and only looked at when they are used.
-/

namespace Scaffold

/-- What a backup knows about one path. -/
structure BackupEntry where
  /-- The path from the root of the project; null for a migration that was not there. -/
  original : Value
  /-- The path of the copy in the backup. -/
  copy : Value
  backedUp : Bool
  existed : Bool
  /-- Why the file could not be copied. -/
  error : Value
  /-- The pattern of the paths of a migration that was not there. -/
  pattern : Value

namespace BackupEntry

/-- Nothing is known. -/
def empty : BackupEntry := ⟨.null, .null, false, false, .null, .null⟩

def toValue (e : BackupEntry) : Value :=
  .ofPairs [("original_path", e.original), ("backup_path", e.copy), ("backed_up", .bool e.backedUp),
    ("existed", .bool e.existed), ("error", e.error), ("pattern", e.pattern)]

/-- Reads an entry; what is missing is null or false. -/
def ofValue : Value → Except ManifestFault BackupEntry
  | .map entries =>
    let get (key : String) : Value := (Value.lookup? entries key).getD .null
    .ok ⟨get "original_path", get "backup_path", !(get "backed_up").isFalsy,
      !(get "existed").isFalsy, get "error", get "pattern"⟩
  | v => .error (.notMapping v.typeName)

end BackupEntry

/-- The manifest of a backup. -/
structure BackupManifest where
  timestamp : String
  /-- The directory of the backup. -/
  directory : String
  /-- The entries of every entity under the names of its artifacts. -/
  entities : List (Value × List (Value × BackupEntry))
  /-- The path of the route file. -/
  sharedPath : String
  /-- The path of the copy of the route file. -/
  sharedCopy : Value
  sharedExisted : Bool

namespace BackupManifest

/-- All entries with the names of their entities and artifacts. -/
def entries (m : BackupManifest) : List (Value × Value × BackupEntry) :=
  m.entities.flatMap fun (entity, es) ↦ es.map fun (artifact, e) ↦ (entity, artifact, e)

/-- The number of files that were copied. -/
def fileCount (m : BackupManifest) : Nat :=
  m.entries.countP (fun (_, _, e) ↦ e.backedUp) + (if m.sharedCopy.isFalsy then 0 else 1)

/-- What could not be copied, and why. -/
def errors (m : BackupManifest) : List String :=
  m.entries.filterMap fun (entity, artifact, e) ↦
    if e.error.isFalsy then none
    else some (entity.plain ++ "." ++ artifact.plain ++ ": " ++ e.error.plain)

def toValue (m : BackupManifest) : Value :=
  .ofPairs [("timestamp", .text m.timestamp),
    ("entities", .map (m.entities.map fun (name, es) ↦
      (name, .map (es.map fun (artifact, e) ↦ (artifact, e.toValue))))),
    ("shared_artifact_path", .text m.sharedPath),
    ("shared_artifact_backup", m.sharedCopy),
    ("shared_artifact_existed", .bool m.sharedExisted)]

/-- The manifest as JSON. -/
def json (m : BackupManifest) : String := m.toValue.json

/-- Reads the values under the keys of a mapping. -/
def readMap {α : Type} (read : Value → Except ManifestFault α) :
    Value → Except ManifestFault (List (Value × α))
  | .map entries => entries.mapM fun (key, v) ↦ return (key, ← read v)
  | v => .error (.notMapping v.typeName)

/-- Reads a manifest; what is missing or empty has a default. -/
def ofValue (v : Value) (directory : String) : Except ManifestFault BackupManifest := do
  match v with
  | .map entries =>
    let get (key : String) : Value := (Value.lookup? entries key).getD .null
    let entities ←
      if (get "entities").isFalsy then pure []
      else readMap (readMap BackupEntry.ofValue) (get "entities")
    return {
      timestamp := ((Value.lookup? entries "timestamp").map Value.plain).getD ""
      directory
      entities
      sharedPath :=
        if (get "shared_artifact_path").isFalsy then RouteFile.relativePath true
        else (get "shared_artifact_path").plain
      sharedCopy := get "shared_artifact_backup"
      sharedExisted := !(get "shared_artifact_existed").isFalsy }
  | v => throw (.notMapping v.typeName)

end BackupManifest

end Scaffold
