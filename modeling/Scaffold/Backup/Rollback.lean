import Scaffold.Backup.Store
import Scaffold.Text.Lines

/-!
# Rolling back

A rollback brings back what a backup holds: files that were copied are restored, and files that
were not there are deleted, as are migrations that fit a pattern. A file that was there but could
not be copied is left alone.
-/

namespace Scaffold

inductive RollbackAction where
  | restored
  | deleted
  | failed
  deriving DecidableEq

def RollbackAction.name : RollbackAction → String
  | .restored => "restored"
  | .deleted => "deleted"
  | .failed => "failed"

/-- What a rollback did to one path. -/
structure RollbackStep where
  path : String
  action : RollbackAction
  entity : String
  artifact : String
  /-- Why it failed. -/
  error : Option String
  deriving DecidableEq

/-- What a rollback came to. -/
structure RollbackResult where
  /-- The name of the session. -/
  backup : String
  steps : List RollbackStep
  errors : List String
  deriving DecidableEq

namespace RollbackResult

/-- The number of paths with which something was done. -/
def count (r : RollbackResult) (a : RollbackAction) : Nat := r.steps.countP (·.action == a)

def isSuccess (r : RollbackResult) : Bool := r.errors.isEmpty && r.count .failed == 0

def stepLine (s : RollbackStep) : String :=
  let mark := if s.action == .failed then "✗" else "✓"
  let reason :=
    match s.error with
    | some e => if e == "" then "" else s!" ({e})"
    | none => ""
  s!"  {mark} " ++ Text.padEnd 9 s.action.name ++ s!" {s.path}{reason}"

def summary (r : RollbackResult) : String :=
  let backup := if r.backup == "" then "-" else r.backup
  Text.joinLines <|
    [Text.ruler '=' 60, "  Rollback Summary", Text.ruler '=' 60,
      s!"  Backup:    {backup}",
      s!"  Restored:  {r.count .restored}",
      s!"  Deleted:   {r.count .deleted}",
      s!"  Failed:    {r.count .failed}",
      "  Time:      0.000s"] ++
    r.steps.map stepLine ++ r.errors.map (fun e ↦ s!"  ✗ {e}") ++ [Text.ruler '=' 60]

end RollbackResult

namespace BackupStore

/-- A path of a manifest. -/
def pathOf (v : Value) : Run Path :=
  match v with
  | .text s => return Path.ofString s
  | v => throw (.badManifest (.notPath v.typeName))

/-- The path of a target from the root of the project. -/
def relative (b : BackupStore) (target : Path) : Run String :=
  match target.relativeTo? b.root with
  | some p => return p.toString
  | none => throw (.outside target b.root)

/-- Does something to a target and says how it went. -/
def step (b : BackupStore) (target : Path) (entity artifact : String) (op : DiskOp Unit)
    (done : RollbackAction) (success failure : String) : Run RollbackStep := do
  let path ← b.relative target
  match ← Run.attempt Failure.isDiskFailure (Run.onDisk op) with
  | .ok _ =>
    Run.say (LogLine.info "backup" s!"{success} {path}")
    return ⟨path, done, entity, artifact, none⟩
  | .error e =>
    Run.say (LogLine.warning "backup" s!"Failed to {failure} {path}: {e.message}")
    return ⟨path, .failed, entity, artifact, some e.message⟩

def restore (b : BackupStore) (source target : Path) (entity artifact : String) :
    Run RollbackStep :=
  b.step target entity artifact (DiskOp.copyFile source target) .restored "Restored" "restore"

def delete (b : BackupStore) (entity artifact : String) (target : Path) : Run RollbackStep :=
  b.step target entity artifact (DiskOp.remove target) .deleted "Removed generated file" "remove"

/-- The paths that fit a pattern. -/
def glob (b : BackupStore) (pattern : Value) : Run (List Path) := do
  match pattern with
  | .text s =>
    let pattern ← Run.lift .badPattern (PathPattern.read s)
    Run.query (·.glob b.root pattern)
  | .map _ => throw (.badManifest .mappedPattern)
  | .list items =>
    let isSlash : Value → Bool
      | .text s => s == "/"
      | _ => false
    if items.any isSlash then throw (.badManifest .listedPattern)
    else throw (.badManifest (.notPath pattern.typeName))
  | v => throw (.badManifest (.notPath v.typeName))

/-- Brings back one path. -/
def rollbackEntry (b : BackupStore) (session : Path) (entity artifact : String) (e : BackupEntry) :
    Run (List RollbackStep) := do
  if e.backedUp && !e.copy.isFalsy && !e.original.isFalsy then
    let copy ← pathOf e.copy
    let original ← pathOf e.original
    return [← b.restore (session ++ copy) (b.root ++ original) entity artifact]
  if e.existed then return []
  if !e.original.isFalsy then
    let target := b.root ++ (← pathOf e.original)
    if ← Run.query (·.isThere target) then return [← b.delete entity artifact target]
    return []
  if e.pattern.isFalsy then return []
  (← b.glob e.pattern).mapM (b.delete entity artifact)

/-- Brings back the route file. -/
def rollbackShared (b : BackupStore) (session : Path) (m : BackupManifest) :
    Run (List RollbackStep) := do
  let target := b.root ++ Path.ofString m.sharedPath
  if !m.sharedCopy.isFalsy then
    return [← b.restore (session ++ (← pathOf m.sharedCopy)) target "" "routes"]
  if m.sharedExisted then return []
  if ← Run.query (·.isThere target) then return [← b.delete "" "routes" target]
  return []

/-- Brings back everything that a manifest names. -/
def rollbackAll (b : BackupStore) (session : Path) (m : BackupManifest) :
    Run (List RollbackStep) := do
  let steps ← m.entries.mapM fun (entity, artifact, e) ↦
    b.rollbackEntry session entity.plain artifact.plain e
  return steps.flatten ++ (← b.rollbackShared session m)

/-- Rolls back to a session, to the latest one if none is named. -/
def rollbackTo (b : BackupStore) (timestamp : String) : Run RollbackResult := do
  let session ← if timestamp == "" then b.latest else pure (some (b.folder ++ Path.ofString timestamp))
  match session with
  | none => return ⟨timestamp, [], ["No backups found. Cannot rollback."]⟩
  | some session =>
    match ← manifestIn session with
    | none => return ⟨session.name, [], ["Invalid backup or missing manifest file."]⟩
    | some m => return ⟨session.name, ← b.rollbackAll session m, []⟩

/-- Rolls back to a session and logs how it went. -/
def rollback (b : BackupStore) (timestamp : String) : Run RollbackResult := do
  let r ← b.rollbackTo timestamp
  Run.sayAll (r.errors.map (LogLine.error "backup"))
  let backup := if r.backup == "" then "-" else r.backup
  Run.say (LogLine.info "backup" <|
    s!"Rollback of {backup}: {r.count .restored} restored, {r.count .deleted} deleted, " ++
      s!"{r.count .failed} failed.")
  return r

end BackupStore

end Scaffold
