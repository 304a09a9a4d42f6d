import Scaffold.Command.Line
import Scaffold.Generation.Pipeline

/-!
# Performing commands

What a command does, what it prints, and the code it ends with. Questions are answered from the
lines of the input, one line each; anything but yes means no.
-/

namespace Scaffold

/-- What a command came to. -/
structure CommandResult where
  code : Nat
  /-- What is printed after all questions. -/
  output : String
  /-- What is printed beside the log. -/
  complaint : String
  deriving DecidableEq

/-- How a program ended and what it printed. -/
structure Ending where
  /-- The exit code, unless a failure ended the program. -/
  code : Except Failure Nat
  /-- The questions it asked, oldest first. -/
  questions : List String
  /-- What it printed after the questions. -/
  answer : String
  /-- The log, and what is printed beside it. -/
  errors : String

namespace Ending

/-- A question as it is printed. -/
def prompt (question : String) : String := question ++ " [y/N] "

/-- All that is printed, apart from the log. -/
def output (e : Ending) : String := String.join (e.questions.map prompt) ++ e.answer

end Ending

namespace Command

/-! ## Exit codes -/

def success : Nat := 0

def validationError : Nat := 1

def generationError : Nat := 2

def backupError : Nat := 3

def inputError : Nat := 4

def finish (code : Nat) (output : String) : Run CommandResult := return ⟨code, output, ""⟩

/-- Ends with an error in the log. -/
def refuse (code : Nat) (message : String) : Run CommandResult := do
  Run.say ⟨.error, "modulegen", message⟩
  finish code ""

/-- Logs a message of the program itself. -/
def tell (message : String) : Run Unit := Run.say ⟨.info, "modulegen", message⟩

/-! ## Questions -/

/-- Does an answer mean yes? -/
def isYes (answer : String) : Bool :=
  let answer := Text.lower (Text.strip answer)
  answer == "y" || answer == "yes"

/-- The answers in the lines of an input. -/
def answersOf (input : String) : Answers := fun earlier _ ↦
  ((Text.cut '\n' input)[earlier.length]?).any isYes

/-! ## Settings -/

/-- The settings that a command line changes. -/
def changes (c : Command) : List (Value × Value) :=
  let text (key : String) (v : Option String) : List (Value × Value) :=
    (v.map fun s ↦ [(Value.text key, Value.text s)]).getD []
  let choice (key : String) (on : Bool) (v : Value) : List (Value × Value) :=
    if on then [(.text key, v)] else []
  text "base_path" c.project.basePath ++
    match c with
    | generate _ stubs force prompt _ skipBackup web =>
      text "stub_path" stubs ++ choice "conflict_policy" force (.text "force") ++
        choice "conflict_policy" (!force && prompt) (.text "prompt") ++
        choice "backup" skipBackup (.bool false) ++ choice "api" web (.bool false)
    | _ => []

/-- A path that may not be given; an empty one counts as not given. -/
def path? (s : Option String) : Option Path :=
  s.bind fun s ↦ if s == "" then none else some (Path.ofString s)

/-- Loads the settings and goes on with them. -/
def withSettings (c : Command) (go : Settings → Run CommandResult) : Run CommandResult := do
  match ← Run.attempt Failure.isInputFailure (Run.loadSettings (path? c.project.config) c.changes) with
  | .ok settings => go settings
  | .error e => refuse inputError s!"Invalid settings: {e.message}"

/-- Finds the schema file and goes on with it. -/
def withSchema (c : Command) (settings : Settings) (go : Path → Run CommandResult) :
    Run CommandResult := do
  let p := (path? c.project.file).getD settings.schemaFile
  if ← Run.query (·.isFile p) then go p
  else refuse inputError s!"Schema file not found: {p.toString}"

/-! ## Commands -/

/-- The exit code of a generation. -/
def codeOf (r : Report) : Nat :=
  if r.isSuccess then success
  else if !r.validationErrors.isEmpty then validationError
  else if !r.backupErrors.isEmpty then backupError
  else generationError

/-- Generates from a schema file and tells how that went. -/
def generateNow (answers : Answers) (moment : Moment) (settings : Settings) (schema : Path) :
    Run CommandResult := do
  let asked := if settings.policy == .prompt then some answers else none
  let g := Generator.ofSettings settings asked moment
  tell s!"Schema:  {schema.toString}"
  tell s!"Root:    {← g.absoluteRoot}"
  tell s!"Policy:  {settings.policy.name}"
  let r ← g.generateFile (some schema)
  finish (codeOf r) (r.summary ++ "\n")

def runGenerate (answers : Answers) (moment : Moment) (settings : Settings) (yes : Bool)
    (schema : Path) : Run CommandResult := do
  let agreed ←
    if settings.policy == .force && !yes then
      Run.confirm answers "Existing artifacts will be overwritten. Continue?"
    else pure true
  if !agreed then finish success "Aborted.\n"
  else generateNow answers moment settings schema

/-- The text of a validation. -/
def validationText (file : Path) (entities : Nat) (r : ValidationReport) : String :=
  let valid := if r.isValid then "Yes" else "No"
  let rule := Text.ruler '=' 50
  Text.joinLines <|
    ["", rule, "  Schema Validation Report", rule,
      s!"  File:      {file.name}",
      s!"  Entities:  {entities}",
      "  Time:      0.000s",
      s!"  Valid:     {valid}"] ++
    (if r.findings.isEmpty then ["", "  ✅ All validations passed!"] else ["", r.format]) ++
    [rule, "", ""]

def runValidate (schema : Path) : Run CommandResult := do
  match ← Run.attempt Failure.isInputFailure (Run.loadSchema schema) with
  | .error e => refuse inputError s!"Failed to load schema: {e.message}"
  | .ok raw =>
    let r ← Run.lift .badKey (Validation.examine (.map raw))
    Run.sayAll (Validation.log (.map raw))
    finish (if r.isValid then success else validationError) (validationText schema raw.length r)

/-- The columns of a listed backup. -/
def backupRow (timestamp entities files size manifest : String) : String :=
  Text.padEnd 24 timestamp ++ Text.padStart 10 entities ++ Text.padStart 8 files ++
    Text.padStart 12 size ++ "  " ++ manifest

/-- The list of backups as text. -/
def backupText (backups : List BackupInfo) : String :=
  if backups.isEmpty then "No backups found.\n"
  else
    Text.joinLines <|
      backupRow "Timestamp" "Entities" "Files" "Size" "Manifest" ::
        backups.map (fun i ↦
          backupRow i.timestamp (toString i.entities) (toString i.files) i.sizeLabel
            (if i.hasManifest then "yes" else "no")) ++ [""]

def runRollback (answers : Answers) (settings : Settings) (mode : RollbackMode) (yes : Bool) :
    Run CommandResult := do
  let store := BackupStore.ofSettings settings
  match mode with
  | .list => finish success (backupText (← store.list))
  | .cleanup keep =>
    match ← Run.attempt (·.level == .invalid) (store.cleanup keep) with
    | .error e => refuse inputError e.message
    | .ok deleted => finish success s!"Deleted {deleted} old backup(s).\n"
  | .restore timestamp =>
    let timestamp := timestamp.getD ""
    let target := if timestamp == "" then "the latest backup" else timestamp
    let agreed ←
      if yes then pure true
      else Run.confirm answers s!"Restore {target}? Generated files will be removed."
    if !agreed then finish success "Aborted.\n"
    else
      let r ← store.rollback timestamp
      finish (if r.isSuccess then success else backupError) (r.summary ++ "\n")

def runPayload (entity : String) (schema : Path) : Run CommandResult := do
  let payload : Run String := do Generator.payload (.map (← Run.loadSchema schema)) entity
  match ← Run.attempt Failure.isInputFailure payload with
  | .ok json => finish success (json ++ "\n")
  | .error (.refused report) => return ⟨validationError, "", report.format ++ "\n"⟩
  | .error e => refuse inputError e.message

/-- Performs a command. -/
def run (c : Command) (answers : Answers) (moment : Moment) : Run CommandResult :=
  c.withSettings fun settings ↦
    match c with
    | generate _ _ _ _ yes _ _ =>
      c.withSchema settings (runGenerate answers moment settings yes)
    | validate _ => c.withSchema settings runValidate
    | rollback _ mode yes => runRollback answers settings mode yes
    | payload _ entity => c.withSchema settings (runPayload entity)

end Command

namespace Invocation

/-- Is a line of the log printed? -/
def shows (i : Invocation) (l : LogLine) : Bool :=
  !i.quiet && (Severity.warning.rank ≤ l.severity.rank || 0 < i.verbosity)

/-- The printed lines of a log. -/
def printed (i : Invocation) (time : String) (log : List LogLine) : String :=
  String.join ((log.filter i.shows).map fun l ↦ l.render time ++ "\n")

/-- The last line of the log. -/
def closing (c : Command) (code : Nat) : LogLine :=
  if code == 0 then ⟨.info, "modulegen", s!"{c.name} completed successfully."⟩
  else ⟨.error, "modulegen", s!"{c.name} failed with exit code {code}."⟩

/-- Performs an invocation on a disk. All log lines bear the same time of day. -/
def run (i : Invocation) (input : String) (moment : Moment) (time : String) (d : Disk) :
    Ending × Disk :=
  let (result, scene) := (i.command.run (Command.answersOf input) moment).run.run ⟨d, [], []⟩
  let errors := i.printed time scene.log
  let ending : Ending := match result with
    | .error f => ⟨.error f, scene.asked, "", errors⟩
    | .ok r =>
      let errors := errors ++ r.complaint ++ i.printed time [closing i.command r.code]
      ⟨.ok r.code, scene.asked, r.output, errors⟩
  (ending, scene.disk)

end Invocation

namespace CommandLineStop

/-- How a program ends that does not come to a command. -/
def ending (s : CommandLineStop) : Ending :=
  match s.stop with
  | .shown o =>
    ⟨.ok 0, [], if o.names.contains "--version" then "ModuleGen v1.0.0\n" else "", ""⟩
  | .wrong e => ⟨.ok 2, [], "", s!"{s.program}: error: {e.message}\n"⟩

end CommandLineStop

/-- Runs a command line on a disk. -/
def runProgram (texts : List String) (input : String) (moment : Moment) (time : String) (d : Disk) :
    Ending × Disk :=
  match Invocation.ofTexts texts with
  | .error s => (s.ending, d)
  | .ok i => i.run input moment time d

end Scaffold
