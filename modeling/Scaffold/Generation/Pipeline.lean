import Scaffold.Generation.Rendering
import Scaffold.Generation.Report
import Scaffold.Run.Input
import Scaffold.Validation.Checks

/-!
# Generation

A run from a raw schema to generated files: the schema is validated, its entities are worked out,
what is there is backed up, every artifact is written, and the routes are registered. Up to the
backup an error ends the run before anything of the project is touched; after it every artifact
stands for itself.
-/

namespace Scaffold

/-- What a run is set up with. -/
structure Generator where
  settings : Settings
  /-- Who is asked before an artifact is replaced. -/
  answers : Option Answers
  routes : RouteFile
  /-- When the run starts. -/
  moment : Moment

namespace Generator

/-- The usual set-up: the route file is the one that the settings name. -/
def ofSettings (settings : Settings) (answers : Option Answers) (moment : Moment) : Generator :=
  ⟨settings, answers, ⟨settings.root, settings.api⟩, moment⟩

def root (g : Generator) : Path := g.settings.root

def stubs (g : Generator) : StubSource := ⟨g.settings.stubDirectory?, g.settings.useDefaultStubs⟩

def writer (g : Generator) : Writer := ⟨g.root, g.settings.policy, g.answers, true⟩

/-- The root of the project as an absolute path. -/
def absoluteRoot (g : Generator) : Run String := do
  return (← Run.query (·.absoluteOf g.root)).toString

/-! ## Before anything is written -/

/-- Validates the schema; gives its entities, if it is valid. -/
def validate (raw : Value) (r : Report) : Run (Report × Option Schema) := do
  let result ← Run.lift .badKey (Validation.examine raw)
  Run.sayAll (Validation.log raw)
  let errors := result.errors.map Finding.line
  let warnings := result.warnings.map Finding.line
  let detail :=
    if !errors.isEmpty then s!"{errors.length} error(s)"
    else if !warnings.isEmpty then s!"{warnings.length} warning(s)"
    else "all checks passed"
  let r := { r with
    validationErrors := r.validationErrors ++ errors
    validationWarnings := r.validationWarnings ++ warnings }
  let r := r.addStep "Validate Schema" result.isValid detail
  if !result.isValid then
    Run.sayAll (errors.map fun e ↦ LogLine.error "generator" s!"  ✗ {e}")
    return (r, none)
  Run.sayAll (warnings.map fun w ↦ LogLine.warning "generator" s!"  ⚠ {w}")
  match raw with
  | .map entries => return (r, some (← Run.lift .entity (Schema.ofEntries entries)))
  | _ => return (r, none)

/-- Works out all entities; gives them, if that succeeds, with what was read on the way. -/
def configure (schema : Schema) (r : Report) : Run (Report × Option (List Configuration × Memory)) := do
  let (built, memory) := (Configuration.buildAll schema).run.run Memory.empty
  Run.sayAll memory.log
  let r := r.addWarnings (memory.warnings.filter fun w ↦ !r.validationWarnings.contains w)
  match built with
  | .ok cs =>
    let r := { r with entities := cs.length }.addStep "Build Configurations" true s!"{cs.length} entities"
    return (r, some (cs, { memory with log := [] }))
  | .error e =>
    if e.level != .invalid then throw (.build e)
    let r := (r.addError e.message).addStep "Build Configurations" false "0 entities"
    Run.say (LogLine.error "generator" s!"Configuration failed: {e.message}")
    return (r, none)

/-- Backs up what the run may touch, and says whether that succeeded. -/
def backUp (g : Generator) (cs : List Configuration) (r : Report) : Run (Report × Bool) := do
  let store :=
    { BackupStore.ofSettings g.settings with shared := RouteFile.relativePath g.routes.api }
  match ← Run.attempt Failure.isDiskFailure (store.create cs g.moment) with
  | .ok m =>
    let r := { r with backup := some m }.addWarnings (m.errors.map fun e ↦ s!"Backup: {e}")
    return (r.addStep "Backup" true s!"{m.fileCount} file(s) → {m.timestamp}", true)
  | .error e =>
    let message := s!"Backup failed: {e.message}"
    let r := { r with backupErrors := r.backupErrors ++ [message] }
    Run.say (LogLine.error "generator" message)
    return (r.addStep "Backup" false message, false)

/-! ## Artifacts -/

/-- The entities that nested requests of an entity lead to. -/
def related (schema : Schema) (c : Configuration) (memory : Memory) : Run (List String × Memory) := do
  let (result, memory) := (Resolve.related schema c.studly []).run.run memory
  Run.sayAll memory.log
  let names ← Run.lift (fun e ↦ .build (.resolve e)) result
  return (names, { memory with log := [] })

/-- The path of an artifact. -/
def artifactPath (g : Generator) (c : Configuration) (m : Moment) (a : Artifact) : Run Path :=
  match a.fixedPath? c with
  | some p => return p
  | none => Run.query fun d ↦ Migration.path d g.root c.table m

/-- Adds what became of an artifact to the report. -/
def record (r : Report) (written : WriteManifest) (o : Outcome) (bare : Bool) :
    Report × WriteManifest :=
  let notes :=
    (if bare then [s!"{o.entity}: migration stub missing, bare table generated"] else []) ++
      (if o.status == .skipped then [s!"{o.entity} {o.artifact}: {o.message}"] else [])
  ({ r with outcomes := r.outcomes ++ [o] }.addWarnings notes, written.addOutcome o)

/-- Generates one artifact. Failures of the disk and missing stubs count against the artifact
alone, any other ends the run. -/
def generateArtifact (g : Generator) (c : Configuration) (related : List String) (m : Moment)
    (a : Artifact) (r : Report) (written : WriteManifest) : Run (Report × WriteManifest) := do
  let relative ← g.artifactPath c m a
  let attempt ← g.writer.write c.studly a.name relative (a.render g.stubs c related)
  let bare := attempt.rendering.any (·.bare)
  match attempt.result with
  | .ok o => return record r written o bare
  | .error e =>
    if !e.isDiskFailure then throw e
    let message := s!"{c.studly} {a.name}: {e.message}"
    Run.say (LogLine.error "generator" message)
    let o : Outcome := ⟨c.studly, a.name, relative.toString, .failed, e.message, none⟩
    return record (r.addError message) written o bare

/-- Generates artifacts one after the other. -/
def generateArtifacts (g : Generator) (c : Configuration) (related : List String) (m : Moment) :
    List Artifact → Report → WriteManifest → Run (Report × WriteManifest)
  | [], r, written => return (r, written)
  | a :: rest, r, written => do
    let (r, written) ← g.generateArtifact c related m a r written
    g.generateArtifacts c related m rest r written

/-- Generates the artifacts of all entities. The `i`-th entity counts as generated `i` seconds
after the start, so that migrations sort in the order of the schema. -/
def generateEntities (g : Generator) (schema : Schema) :
    Nat → List Configuration → Memory → Report → WriteManifest → Run (Report × WriteManifest)
  | _, [], _, r, written => return (r, written)
  | i, c :: rest, memory, r, written => do
    let m ←
      match g.moment.plus? i with
      | some m => pure m
      | none => throw .endOfCalendar
    let (related, memory) ← Generator.related schema c memory
    let (r, written) ← g.generateArtifacts c related m (Artifact.enabled c.toggles) r written
    g.generateEntities schema (i + 1) rest memory r written

/-- Generates everything. -/
def generateAll (g : Generator) (schema : Schema) (cs : List Configuration) (memory : Memory)
    (r : Report) : Run Report := do
  let empty := WriteManifest.empty g.root.toString
  let (r, written) ← g.generateEntities schema 0 cs memory r empty
  let detail := s!"{r.count .created} created, {r.count .replaced} replaced, " ++
    s!"{r.count .skipped} skipped, {r.count .failed} failed"
  Run.say (LogLine.info "generator" s!"Artifact generation complete: {detail} in 0.000s.")
  return { r with written := some written }.addStep "Generate Artifacts" (r.count .failed == 0) detail

/-! ## Routes -/

/-- Registers the route of an entity. -/
def registerRoute (g : Generator) (c : Configuration) (r : Report) : Run Report := do
  match ← Run.attempt Failure.isDiskFailure
      (g.routes.register c.table (c.className "Controller")) with
  | .error e => return r.addError s!"Route for {c.studly}: {e.message}"
  | .ok result =>
    let r := { r with routes := r.routes ++ [result] }
    return if result.added then r else r.addWarnings [result.message]

/-- Registers the routes of all entities with a controller. -/
def registerRoutes (g : Generator) (cs : List Configuration) (r : Report) : Run Report := do
  let r ← (cs.filter fun c ↦ c.toggles.isOn .controller).foldlM (fun r c ↦ g.registerRoute c r) r
  let added := r.routes.countP (·.added)
  let present := r.routes.length - added
  let file := RouteFile.relativePath g.routes.api
  return r.addStep "Register Routes" true s!"{added} added, {present} present in {file}"

/-! ## Runs -/

/-- The whole way from a raw schema. -/
def run (g : Generator) (raw : Value) (r : Report) : Run Report := do
  match ← validate raw r with
  | (r, none) => return r
  | (r, some schema) =>
    match ← configure schema r with
    | (r, none) => return r
    | (r, some (cs, memory)) =>
      let (r, ready) ← if g.settings.backup then g.backUp cs r else pure (r, true)
      if !ready then return r
      g.registerRoutes cs (← g.generateAll schema cs memory r)

/-- Generates from a raw schema. -/
def generate (g : Generator) (raw : Value) : Run Report := do
  g.run raw (.empty (← g.absoluteRoot) "")

/-- Generates from a schema file, by default from the one that the settings name. -/
def generateFile (g : Generator) (file : Option Path) : Run Report := do
  let p := file.getD g.settings.schemaFile
  let r := Report.empty (← g.absoluteRoot) p.toString
  match ← Run.attempt Failure.isInputFailure (Run.loadSchema p) with
  | .error e =>
    Run.say (LogLine.error "generator" s!"Could not load schema: {e.message}")
    return (r.addError e.message).addStep "Load Schema File" false e.message
  | .ok raw =>
    Run.say (LogLine.info "generator" s!"Loaded schema file: {p.toString} ({raw.length} entities).")
    g.run (.map raw) (r.addStep "Load Schema File" true s!"from {p.name}")

/-! ## Example payloads -/

/-- The entities of a valid schema, worked out. -/
def configurations (raw : Value) : Run (List Configuration) := do
  let result ← Run.lift .badKey (Validation.examine raw)
  Run.sayAll (Validation.log raw)
  if !result.isValid then throw (.refused result)
  match raw with
  | .map entries =>
    let schema ← Run.lift .entity (Schema.ofEntries entries)
    let (built, memory) := (Configuration.buildAll schema).run.run Memory.empty
    Run.sayAll memory.log
    Run.lift .build built
  | _ => return []

/-- The example payload of an entity as JSON. -/
def payload (raw : Value) (name : String) : Run String := do
  match (← configurations raw).find? fun c ↦ c.studly == Name.studly name with
  | some c => return (Value.ofPairs (Code.payload c)).json
  | none => throw (.unknownEntity name)

end Generator

end Scaffold
