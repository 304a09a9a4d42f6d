import Scaffold.Command.Options

/-!
# Command lines

The commands of the program, their options, and what a command line asks for.
-/

namespace Scaffold

/-- Which files a command works with. -/
structure ProjectChoice where
  /-- The schema file. -/
  file : Option String
  /-- The settings file. -/
  config : Option String
  basePath : Option String
  deriving DecidableEq

/-- What a rollback command does. -/
inductive RollbackMode where
  /-- Restores a backup, the latest one if none is named. -/
  | restore (timestamp : Option String)
  | list
  /-- Deletes old backups; without a number the settings say how many stay. -/
  | cleanup (keep : Option Int)
  deriving DecidableEq

/-- What a command line asks for. -/
inductive Command where
  | generate (project : ProjectChoice) (stubs : Option String) (force prompt yes skipBackup web : Bool)
  | validate (project : ProjectChoice)
  | rollback (project : ProjectChoice) (mode : RollbackMode) (yes : Bool)
  | payload (project : ProjectChoice) (entity : String)
  deriving DecidableEq

def Command.name : Command → String
  | .generate .. => "generate"
  | .validate _ => "validate"
  | .rollback .. => "rollback"
  | .payload .. => "payload"

def Command.project : Command → ProjectChoice
  | .generate p .. | .validate p | .rollback p .. | .payload p _ => p

/-- A command and how much is said about it. -/
structure Invocation where
  verbosity : Nat
  quiet : Bool
  command : Command
  deriving DecidableEq

/-- What ends a command line early, and the program or command that it was read for. -/
structure CommandLineStop where
  program : String
  stop : CommandStop
  deriving DecidableEq

namespace Command

open CommandOption

def helpOption : CommandOption := final ["-h", "--help"]

def mainOptions : List CommandOption :=
  [helpOption, final ["--version"], flag ["-v", "--verbose"] 0, flag ["-q", "--quiet"] 0]

def projectOptions : List CommandOption :=
  [setting ["-f", "--file"] 0, setting ["--config"] 0, setting ["--base-path"] 0]

def generateOptions : List CommandOption :=
  helpOption :: projectOptions ++
    [setting ["--stubs"] 0, flag ["--force"] 1, flag ["--prompt"] 1, flag ["-y", "--yes"] 0,
      flag ["--skip-backup"] 0, flag ["--web"] 0]

def rollbackOptions : List CommandOption :=
  [helpOption, setting ["--config"] 0, setting ["--base-path"] 0, setting ["--backup"] 1,
    flag ["--list"] 1, ⟨["--cleanup"], .atMostOne, true, 1, false⟩, flag ["-y", "--yes"] 0]

/-- The number of `--cleanup` that leaves the choice to the settings, as does no number. -/
def settingsKeep : Int := -1

def names : List String := ["generate", "validate", "rollback", "payload"]

def projectOf (r : CommandRead) : ProjectChoice :=
  ⟨r.value? "--file", r.value? "--config", r.value? "--base-path"⟩

/-- How many backups a clean-up keeps, if the command line says so. -/
def keepOf (r : CommandRead) : Option Int :=
  match (r.value? "--cleanup").bind OptionUse.integer? with
  | some n => if n == settingsKeep then none else some n
  | none => none

def modeOf (r : CommandRead) : RollbackMode :=
  if r.has "--list" then .list
  else if r.has "--cleanup" then .cleanup (keepOf r)
  else .restore (r.value? "--backup")

/-- Reads the words after the name of a command; also gives the words that nothing was made
of. -/
def ofWords (name : String) (words : List String) : Except CommandStop (Command × List String) := do
  match name with
  | "generate" =>
    let r ← CommandRead.ofTexts generateOptions .nothing words
    let command := generate (projectOf r) (r.value? "--stubs") (r.has "--force") (r.has "--prompt")
      (r.has "--yes") (r.has "--skip-backup") (r.has "--web")
    return (command, r.extra)
  | "validate" =>
    let r ← CommandRead.ofTexts (helpOption :: projectOptions) .nothing words
    return (validate (projectOf r), r.extra)
  | "rollback" =>
    let r ← CommandRead.ofTexts rollbackOptions .nothing words
    return (rollback (projectOf r) (modeOf r) (r.has "--yes"), r.extra)
  | "payload" =>
    let r ← CommandRead.ofTexts (helpOption :: projectOptions) (.one "ENTITY") words
    return (payload (projectOf r) ((r.operand.map (·.1)).getD ""), r.extra)
  | _ => throw (.wrong (.unknownCommand name names))

end Command

namespace Invocation

def program : String := "modulegen"

/-- The program under which a command reports what is wrong with its words. -/
def programOf (name : String) : String :=
  if Command.names.contains name then program ++ " " ++ name else program

/-- Reads a command line. -/
def ofTexts (texts : List String) : Except CommandLineStop Invocation := do
  let r ← (CommandRead.ofTexts Command.mainOptions (.command "COMMAND") texts).mapError (⟨program, ·⟩)
  let (name, words) := r.operand.getD ("", [])
  let (command, extra) ← (Command.ofWords name words).mapError (⟨programOf name, ·⟩)
  let extra := r.extra ++ extra
  if !extra.isEmpty then throw ⟨program, .wrong (.unrecognized extra)⟩
  return ⟨r.count "--verbose", r.has "--quiet", command⟩

end Invocation

end Scaffold
