import Scaffold.Artifact.Migration
import Scaffold.Backup.Manifest
import Scaffold.Binary64.Size
import Scaffold.Entries
import Scaffold.Value.Json.Reader

/-!
# The backups of a project

Backups lie side by side in one directory, each in a session directory that is named by the
moment of its creation. They are listed by name, the last name first.
-/

namespace Scaffold

/-- The backups of a project. -/
structure BackupStore where
  /-- The root of the project. -/
  root : Path
  /-- The directory of the session directories. -/
  folder : Path
  /-- The path of the route file from the root of the project. -/
  shared : String
  /-- How many sessions a clean-up keeps. -/
  keep : Nat

/-- A session as it is listed. -/
structure BackupInfo where
  timestamp : String
  path : String
  hasManifest : Bool
  /-- The bytes of all its files. -/
  size : Nat
  entities : Nat
  files : Nat
  deriving DecidableEq

def BackupInfo.sizeLabel (i : BackupInfo) : String := Binary64.sizeLabel i.size

namespace BackupStore

def manifestName : String := "backup_manifest.json"

def ofSettings (s : Settings) : BackupStore :=
  ⟨s.root, s.backupRoot, RouteFile.relativePath s.api, s.keepBackups.val⟩

/-! ## Making a backup -/

/-- The `k`-th name for a session with the given stamp. -/
def sessionName (stamp : String) (k : Nat) : String :=
  if k == 0 then stamp else s!"{stamp}_{k}"

/-- The first name with the given stamp that is not in use. -/
def freeName (used : List String) (stamp : String) : String :=
  let k := (List.range (used.length + 1)).find? fun k ↦ !used.contains (sessionName stamp k)
  sessionName stamp (k.getD 0)

/-- The path of a copy in its session. -/
def copyPath (a : Artifact) (entity : String) (original : Path) : Path :=
  let folder :=
    match a with
    | .migration => ["migrations"]
    | .resource | .collection => if entity == "" then [a.name] else [a.name, entity]
    | _ => [a.name]
  ⟨0, folder ++ [original.name]⟩

/-- Copies one file of an entity, if it is there. A copy that fails is recorded. -/
def backupFile (b : BackupStore) (session : Path) (a : Artifact) (entity : String)
    (relative : Path) : Run BackupEntry := do
  let entry := { BackupEntry.empty with original := .text relative.toString }
  if !(← Run.query (·.isThere (b.root ++ relative))) then return entry
  let copy := copyPath a entity relative
  match ← Run.attempt Failure.isDiskFailure
      (Run.onDisk (DiskOp.copyFile (b.root ++ relative) (session ++ copy))) with
  | .error e =>
    Run.say (LogLine.warning "backup" s!"Failed to back up {a.name} for {entity}: {e.message}")
    return { entry with existed := true, error := .text e.message }
  | .ok _ =>
    Run.say (LogLine.info "backup" s!"Backed up {a.name}: {entity} → {copy.toString}")
    return { entry with existed := true, backedUp := true, copy := .text copy.toString }

/-- Copies one artifact of an entity. Of a migration that is not there the pattern is kept. -/
def backupArtifact (b : BackupStore) (session : Path) (c : Configuration) (a : Artifact) :
    Run (Value × BackupEntry) := do
  let name := Value.text a.name
  match a.fixedPath? c with
  | some p => return (name, ← b.backupFile session a c.studly p)
  | none =>
    match ← Run.query fun d ↦ Migration.existing d b.root c.table with
    | [] => return (name, { BackupEntry.empty with pattern := .text (Migration.pathPattern c.table) })
    | file :: _ => return (name, ← b.backupFile session a c.studly (Migration.folder.child file))

/-- Copies all artifacts of an entity. -/
def backupEntity (b : BackupStore) (session : Path) (c : Configuration) :
    Run (List (Value × BackupEntry)) :=
  Artifact.backupOrder.mapM (b.backupArtifact session c)

/-- Copies the artifacts of all entities. -/
def backupEntities (b : BackupStore) (session : Path) (cs : List Configuration) :
    Run (List (Value × List (Value × BackupEntry))) := do
  let found ← cs.mapM fun c ↦ do return (c.studly, ← b.backupEntity session c)
  return (Entries.ofList found).map fun (name, entries) ↦ (.text name, entries)

/-- Copies the route file, if it is there. -/
def backupShared (b : BackupStore) (session : Path) : Run (Value × Bool) := do
  let original := b.root ++ Path.ofString b.shared
  if !(← Run.query (·.isThere original)) then return (.null, false)
  let copy : Path := ⟨0, ["routes", original.name]⟩
  match ← Run.attempt Failure.isDiskFailure
      (Run.onDisk (DiskOp.copyFile original (session ++ copy))) with
  | .error e =>
    Run.say (LogLine.warning "backup" s!"Failed to back up {b.shared}: {e.message}")
    return (.null, true)
  | .ok _ =>
    Run.say (LogLine.info "backup" s!"Backed up {b.shared}")
    return (.text copy.toString, true)

/-- Makes a backup of all artifacts of the entities and of the route file. -/
def create (b : BackupStore) (cs : List Configuration) (m : Moment) : Run BackupManifest := do
  let session := b.folder.child (freeName ((← get).disk.list b.folder) m.backupStamp)
  let _ ← Run.query (·.isThere session)
  Run.onDisk (DiskOp.makeNewDir session)
  let entities ← b.backupEntities session cs
  let (copy, existed) ← b.backupShared session
  let manifest : BackupManifest :=
    { timestamp := session.name
      directory := session.toString
      entities
      sharedPath := b.shared
      sharedCopy := copy
      sharedExisted := existed }
  Run.onDisk (DiskOp.write (session.child manifestName) (Text.encode manifest.json))
  let count := manifest.fileCount
  Run.say (LogLine.info "backup"
    s!"Backup completed: {count} file(s) in {session.toString} (0.000s).")
  return manifest

/-! ## Finding backups -/

/-- The session directories, the last name first. -/
def sessions (b : BackupStore) : Run (List Path) := do
  if !(← Run.query (·.isDir b.folder)) then return []
  let names ← ((← get).disk.list b.folder).filterM fun name ↦
    Run.query (·.isDir (b.folder.child name))
  return (names.mergeSort fun x y ↦ y ≤ x).map b.folder.child

/-- The session with the last name. -/
def latest (b : BackupStore) : Run (Option Path) := do return (← b.sessions).head?

/-- The manifest in a session directory; none if it cannot be read. -/
def manifestIn (directory : Path) : Run (Option BackupManifest) := do
  let p := directory.child manifestName
  if !(← Run.query (·.isFile p)) then return none
  let unreadable (reason : String) : Run (Option BackupManifest) := do
    Run.say (LogLine.warning "backup" s!"Failed to load backup manifest {p.toString}: {reason}")
    return none
  match ← Run.attempt (fun _ ↦ true) (Run.readText p) with
  | .error e => unreadable e.message
  | .ok text =>
    match Value.ofJson text with
    | .error e => if e.fault == .tooDeep then throw .tooDeep else unreadable e.message
    | .ok (.map entries) =>
      Run.lift .badManifest do
        return some (← BackupManifest.ofValue (.map entries) directory.toString)
    | .ok _ =>
      Run.say (LogLine.warning "backup" s!"Backup manifest {p.toString} is not an object.")
      return none

/-- The manifest of a session, of the latest one if none is named. -/
def manifest (b : BackupStore) (directory : Option Path) : Run (Option BackupManifest) := do
  let latest ←
    match directory with
    | some p => pure (some p)
    | none => b.latest
  match latest with
  | some p => manifestIn p
  | none => return none

/-- What is listed about a session. -/
def info (p : Path) : Run BackupInfo := do
  let manifest ← manifestIn p
  return {
    timestamp := p.name
    path := p.toString
    hasManifest := ← Run.query (·.isFile (p.child manifestName))
    size := ← Run.query (·.sizeBelow p)
    entities := (manifest.map fun m ↦ m.entities.length).getD 0
    files := (manifest.map BackupManifest.fileCount).getD 0 }

/-- All sessions, the last name first. -/
def list (b : BackupStore) : Run (List BackupInfo) := do (← b.sessions).mapM info

/-- Deletes all sessions but the first `keep` in the list, and counts them. -/
def cleanup (b : BackupStore) (keep : Option Int) : Run Nat := do
  let keep := keep.getD b.keep
  if keep < 1 then throw .keepsNothing
  let old := (← b.sessions).drop keep.toNat
  for p in old do
    Run.onDisk (DiskOp.removeTree p)
    Run.say (LogLine.info "backup" s!"Deleted old backup: {p.name}")
  return old.length

end BackupStore

end Scaffold
