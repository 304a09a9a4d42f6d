import Scaffold.Backup.Rollback
import Scaffold.Generation.Writing

/-!
# Generation reports

What a run has done: its steps, what became of every artifact and route, and all that went wrong
or deserves a warning.
-/

namespace Scaffold

/-- One step of a run. -/
structure StepReport where
  name : String
  success : Bool
  detail : String
  deriving DecidableEq

/-- The report of a run. -/
structure Report where
  basePath : String
  /-- The schema file; empty if the schema did not come from a file. -/
  schemaFile : String
  entities : Nat
  steps : List StepReport
  validationErrors : List String
  validationWarnings : List String
  generationErrors : List String
  generationWarnings : List String
  backupErrors : List String
  outcomes : List Outcome
  routes : List RouteResult
  backup : Option BackupManifest
  written : Option WriteManifest

namespace Report

def empty (basePath schemaFile : String) : Report :=
  ⟨basePath, schemaFile, 0, [], [], [], [], [], [], [], [], none, none⟩

/-- A run succeeds if it reports no error. -/
def isSuccess (r : Report) : Bool :=
  r.validationErrors.isEmpty && r.generationErrors.isEmpty && r.backupErrors.isEmpty

/-- The number of artifacts with a status. -/
def count (r : Report) (s : ArtifactStatus) : Nat := r.outcomes.countP (·.status == s)

def addStep (r : Report) (name : String) (success : Bool) (detail : String) : Report :=
  { r with steps := r.steps ++ [⟨name, success, detail⟩] }

def addError (r : Report) (message : String) : Report :=
  { r with generationErrors := r.generationErrors ++ [message] }

def addWarnings (r : Report) (messages : List String) : Report :=
  { r with generationWarnings := r.generationWarnings ++ messages }

/-! ## Text -/

def stepLine (s : StepReport) : String :=
  let mark := if s.success then "✓" else "✗"
  s!"    {mark} " ++ Text.padEnd 28 s.name ++ s!"   0.000s  {s.detail}"

def statusMark : ArtifactStatus → String
  | .created | .replaced => "✓"
  | .skipped => "⊘"
  | .failed => "✗"

def outcomeLine (o : Outcome) : String :=
  s!"    {statusMark o.status} " ++ Text.padEnd 9 o.status.name ++ o.path

def thickRule : String := Text.ruler '=' 60

def thinRule : String := Text.ruler '─' 60

/-- Messages under a title; nothing if there are none. -/
def messageLines (title mark : String) (messages : List String) : List String :=
  if messages.isEmpty then []
  else
    let count := messages.length
    [thinRule, s!"  {title} ({count}):"] ++ messages.map fun m ↦ s!"    {mark} {m}"

/-- The report in several lines. -/
def summary (r : Report) : String :=
  let status := if r.isSuccess then "✅ SUCCESS" else "❌ FAILED"
  let schema := if r.schemaFile == "" then "-" else r.schemaFile
  let backup :=
    match r.backup with
    | some b => [s!"  Backup:           {b.timestamp}"]
    | none => []
  let steps := if r.steps.isEmpty then [] else "  Pipeline Steps:" :: r.steps.map stepLine
  let artifacts :=
    if r.outcomes.isEmpty then [] else [thinRule, "  Artifacts:"] ++ r.outcomes.map outcomeLine
  Text.joinLines <|
    [thickRule, "  ModuleGen — Generation Report", thickRule,
      s!"  Status:           {status}",
      s!"  Schema:           {schema}",
      s!"  Project root:     {r.basePath}",
      s!"  Entities:         {r.entities}",
      s!"  Created:          {r.count .created}",
      s!"  Replaced:         {r.count .replaced}",
      s!"  Skipped:          {r.count .skipped}",
      s!"  Failed:           {r.count .failed}"] ++
    backup ++ ["  Total time:       0.000s", thinRule] ++ steps ++ artifacts ++
    messageLines "Validation Errors" "✗" r.validationErrors ++
    messageLines "Validation Warnings" "⚠" r.validationWarnings ++
    messageLines "Backup Errors" "✗" r.backupErrors ++
    messageLines "Generation Errors" "✗" r.generationErrors ++
    messageLines "Generation Warnings" "⚠" r.generationWarnings ++ [thickRule]

end Report

end Scaffold
