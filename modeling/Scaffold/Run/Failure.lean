import Scaffold.Disk.Glob
import Scaffold.Configuration.Basic
import Scaffold.Schema.Basic
import Scaffold.Settings.Basic
import Scaffold.Validation.Report
import Scaffold.Yaml.Reader

/-!
# Failures

Everything that can stop a run or a part of it, as causes, with what is said about each. A
failure is of one of four classes (`Failure.level`), and the parts of a run state which classes
they survive.
-/

namespace Scaffold

/-- A file that a user supplies. -/
inductive InputFile where
  | schema
  | settings
  deriving DecidableEq

def InputFile.title : InputFile → String
  | .schema => "Schema"
  | .settings => "Settings"

/-- A part of a backup manifest that is not what it has to be. -/
inductive ManifestFault where
  /-- A mapping is needed. -/
  | notMapping (typeName : String)
  /-- A path is needed. -/
  | notPath (typeName : String)
  /-- A pattern is needed, and a mapping stands there. -/
  | mappedPattern
  /-- A pattern is needed, and a list of path components stands there. -/
  | listedPattern
  deriving DecidableEq

/-- The cause of a failure. -/
inductive Failure where
  | disk (e : DiskError)
  | undecodable (e : Text.DecodeError)
  | missingStub (key : String) (folder : Option Path)
  | missingFile (file : InputFile) (path : Path)
  | notFile (file : InputFile) (path : Path)
  | badYaml (path : Path) (e : YamlError)
  | badScalar (fault : ScalarFault)
  | notMapping (typeName : String)
  | badSettings (problems : List Shape.Problem)
  | badKey (e : KeyError)
  | refused (report : ValidationReport)
  | entity (e : EntityError)
  | build (e : BuildError)
  | unknownEntity (name : String)
  | keepsNothing
  /-- A path does not lie below the root of the project. -/
  | outside (path root : Path)
  | badPattern (e : PatternError)
  | badManifest (fault : ManifestFault)
  | endOfCalendar
  /-- A file nests its values too deeply. -/
  | tooDeep

/-- The classes of failures. -/
inductive FailureLevel where
  /-- Something is not there. -/
  | absent
  /-- The disk refuses an operation for another reason. -/
  | blocked
  /-- What the user supplies cannot be used. -/
  | invalid
  /-- Nothing of this; no part of a run survives it. -/
  | fatal
  deriving DecidableEq

def SelectionError.level : SelectionError → FailureLevel
  | .unknown .. | .unusable _ => .invalid
  | .padded _ | .notNames _ => .fatal

def EntityError.level : EntityError → FailureLevel
  | .misshapen _ | .notPair .. => .invalid
  | .notEntries => .fatal

def PatternError.level : PatternError → FailureLevel
  | .inside => .invalid
  | .absolute | .empty | .nameless => .fatal

def PatternError.message : PatternError → String
  | .inside => "Invalid pattern: '**' can only be an entire path component"
  | .absolute => "Non-relative patterns are unsupported"
  | .empty => "The pattern is empty"
  | .nameless => "The pattern has no name before its slash"

def BuildError.level : BuildError → FailureLevel
  | .resolve (.field _) => .invalid
  | .resolve .endless => .fatal
  | .selection e => e.level

def BuildError.message : BuildError → String
  | .resolve (.field e) => e.message
  | .resolve .endless => "The nested requests can be followed without end."
  | .selection e => e.message

def ManifestFault.message : ManifestFault → String
  | .notMapping typeName => s!"The manifest holds a {typeName} in place of a mapping."
  | .notPath typeName => s!"The manifest holds a {typeName} in place of a path."
  | .mappedPattern => "The manifest holds a mapping in place of a pattern."
  | .listedPattern => "The manifest holds a list of components in place of a pattern."

def ScalarFault.level : ScalarFault → FailureLevel
  | .characterWord | .notBool _ | .notStamp _ | .missing => .fatal
  | _ => .invalid

namespace Failure

def level : Failure → FailureLevel
  | disk e =>
    match e.fault with
    | .notFound => .absent
    | .nul => .invalid
    | .tooDeep => .fatal
    | _ => .blocked
  | missingStub .. | missingFile .. => .absent
  | undecodable _ | notFile .. | badYaml .. | notMapping _ | badSettings _ | badKey _
  | refused _ | unknownEntity _ | keepsNothing | outside .. => .invalid
  | badScalar fault => fault.level
  | entity e => e.level
  | build e => e.level
  | badPattern e => e.level
  | badManifest _ | endOfCalendar | tooDeep => .fatal

/-- Does the disk refuse, or is something not there? -/
def isDiskFailure (f : Failure) : Bool := f.level == .absent || f.level == .blocked

/-- Is something not there, or of no use? -/
def isInputFailure (f : Failure) : Bool := f.level == .absent || f.level == .invalid

def message : Failure → String
  | disk e => e.message
  | undecodable e => e.message
  | missingStub key folder =>
    let place :=
      match folder with
      | some p => s!" (looked in {p.toString})"
      | none => ""
    s!"Stub not found for key '{key}'{place}."
  | missingFile file path => s!"{file.title} file not found: {path.toString}"
  | notFile file path => s!"{file.title} path is not a file: {path.toString}"
  | badYaml path e => s!"Invalid YAML in {path.toString}: {e.message}"
  | badScalar fault => fault.message
  | notMapping typeName => s!"Expected a YAML mapping at top level, got {typeName}."
  | badSettings problems => Settings.report problems
  | badKey e => e.message
  | refused report => report.refusal
  | entity e => e.message
  | build e => e.message
  | unknownEntity name => s!"Unknown entity '{name}'."
  | keepsNothing => "Must keep at least 1 backup."
  | outside path root =>
    let path := Value.textLiteral path.toString
    let root := Value.textLiteral (if root == .here then "" else root.toString)
    s!"{path} is not in the subpath of {root} OR one path is relative and the other is absolute."
  | badPattern e => e.message
  | badManifest fault => fault.message
  | endOfCalendar => "date value out of range"
  | tooDeep => "maximum recursion depth exceeded"

end Failure

end Scaffold
