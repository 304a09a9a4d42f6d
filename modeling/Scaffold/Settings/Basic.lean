import Scaffold.Disk.Path
import Scaffold.Shape.Reading

/-!
# Settings

The settings of a project: where it lies, where schema, stubs and backups are, and how
generation treats what is already there. `ofEntries` reads them from a mapping, `assign` changes
one of them; both check every value.
-/

namespace Scaffold

/-- What happens to artifacts that are already there. -/
inductive ConflictPolicy where
  | skip
  | prompt
  | force
  deriving DecidableEq

namespace ConflictPolicy

def name : ConflictPolicy → String
  | skip => "skip"
  | prompt => "prompt"
  | force => "force"

def ofName? (s : String) : Option ConflictPolicy := [skip, prompt, force].find? (·.name == s)

theorem ofName?_name (p : ConflictPolicy) : ofName? p.name = some p := by cases p <;> decide

/-- What is said of a name that is no policy's. -/
def unknown (s : String) : String := Value.textLiteral s ++ " is not a valid ConflictPolicy"

/-- The policy of a name, or what is said if there is none. -/
def ofName (s : String) : Except String ConflictPolicy :=
  match ofName? s with
  | some p => .ok p
  | none => .error (unknown s)

end ConflictPolicy

/-- The settings of a project. Relative paths are seen from `basePath`. -/
structure Settings where
  basePath : String
  /-- The schema file. -/
  modelsPath : String
  backupPath : String
  /-- The directory of the project's own stubs. -/
  stubPath : Option String
  /-- Do the packaged stubs stand in for missing ones? -/
  useDefaultStubs : Bool
  /-- Are routes those of an interface for programs, not for browsers? -/
  api : Bool
  policy : ConflictPolicy
  /-- Is a backup made before anything is written? -/
  backup : Bool
  /-- How many backups a clean-up keeps. -/
  keepBackups : { n : Nat // 1 ≤ n }
  deriving DecidableEq

namespace Settings

open Shape

def default : Settings :=
  ⟨".", "module/models.yaml", "storage/app/backups", some "module/stubs", true, true, .skip, true,
    ⟨5, by decide⟩⟩

/-! ## Places -/

def root (s : Settings) : Path := Path.ofString s.basePath

/-- A path of the settings as seen from the working directory. -/
def place (s : Settings) (path : String) : Path := s.root ++ Path.ofString path

def backupRoot (s : Settings) : Path := s.place s.backupPath

def schemaFile (s : Settings) : Path := s.place s.modelsPath

/-- The directory of the project's own stubs; an empty path means that there is none. -/
def stubDirectory? (s : Settings) : Option Path :=
  s.stubPath.bind fun path ↦ if path == "" then none else some (s.place path)

/-! ## Reading -/

def readPolicy : Value → Reading ConflictPolicy
  | .text s => ((ConflictPolicy.ofName? s).map .ok).getD (miss .unknownPolicy)
  | _ => miss .unknownPolicy

/-- Reads an integer that is at least one. -/
def readPositive (v : Value) : Reading { n : Nat // 1 ≤ n } :=
  match int v with
  | .error ps => .error ps
  | .ok i => if h : 1 ≤ i.toNat then .ok ⟨i.toNat, h⟩ else miss .belowOne

def readOptionalText : Value → Reading (Option String)
  | .null => .ok none
  | v => (text v).map some

/-- The keys of the settings, in their usual order. -/
def keys : List String :=
  ["base_path", "models_path", "backup_path", "stub_path", "use_default_stubs", "api",
    "conflict_policy", "backup", "keep_backups"]

/-- Sets the setting under a key. -/
def assign (s : Settings) (key : String) (v : Value) : Reading Settings :=
  within key <|
    match key with
    | "base_path" => (text v).map fun x ↦ { s with basePath := x }
    | "models_path" => (text v).map fun x ↦ { s with modelsPath := x }
    | "backup_path" => (text v).map fun x ↦ { s with backupPath := x }
    | "stub_path" => (readOptionalText v).map fun x ↦ { s with stubPath := x }
    | "use_default_stubs" => (bool v).map fun x ↦ { s with useDefaultStubs := x }
    | "api" => (bool v).map fun x ↦ { s with api := x }
    | "conflict_policy" => (readPolicy v).map fun x ↦ { s with policy := x }
    | "backup" => (bool v).map fun x ↦ { s with backup := x }
    | "keep_backups" => (readPositive v).map fun x ↦ { s with keepBackups := x }
    | _ => miss (.noAttribute key)

/-- Why a setting cannot be changed. -/
inductive ChangeError where
  | misshapen (problems : List Problem)
  /-- The name is one of a place, which follows from the settings. -/
  | computed (name : String)
  /-- The name belongs to the settings as a whole. -/
  | reserved (name : String)
  deriving DecidableEq

/-- What follows from the settings and cannot be set. -/
def computedNames : List String :=
  ["root", "backup_root", "schema_file", "stub_directory", "routes_file", "model_extra",
    "model_fields_set"]

def reservedNames : List String := ["__class__", "__dict__"]

/-- Changes what a name stands for. Names with an underscore in front are notes, which change no
setting. -/
def change (s : Settings) (name : String) (v : Value) : Except ChangeError Settings :=
  if reservedNames.contains name then .error (.reserved name)
  else if name.toList.head? == some '_' then .ok s
  else if computedNames.contains name then .error (.computed name)
  else (assign s name v).mapError .misshapen

/-- Sets the settings under the given keys; the problems of all keys are kept. -/
def assignAll (entries : List (Value × Value)) : List String → Settings → Reading Settings
  | [], s => .ok s
  | key :: rest, s =>
    match Value.lookup? entries key with
    | none => assignAll entries rest s
    | some v =>
      match assign s key v with
      | .ok s => assignAll entries rest s
      | .error ps => .error (ps ++ problems (assignAll entries rest s))

/-- Reads settings from the entries of a mapping; what is missing has its default. -/
def ofEntries (entries : List (Value × Value)) : Reading Settings :=
  also (unexpected keys entries) (assignAll entries keys default)

/-- The problems of unusable settings, one below the other. -/
def report (ps : List Problem) : String :=
  let count := ps.length
  let plural := if count == 1 then "" else "s"
  Text.joinLines <| s!"{count} validation error{plural} for GeneratorSettings" ::
    ps.flatMap fun p ↦ [p.printedPath, "  " ++ p.mismatch.message]

/-- The entries of a mapping changed by further ones, in which null says nothing. -/
def override (entries more : List (Value × Value)) : List (Value × Value) :=
  more.foldl
    (fun acc (key, v) ↦
      match v with
      | .null => acc
      | v => Value.putEntry acc key v)
    entries

end Settings

end Scaffold
