import Scaffold.Run.Basic

/-!
# Input files

Schema and settings files. Both are YAML mappings; how they are used is not decided here.
-/

namespace Scaffold.Run

/-- What a fault of the YAML text in a file leads to. Only a wrong spelling is reported with the
file. -/
def yamlFailure (p : Path) (e : YamlError) : Failure :=
  match e.fault with
  | .scalar fault => .badScalar fault
  | .tooDeep => .tooDeep
  | _ => .badYaml p e

/-- The mapping in a YAML file. -/
def loadMapping (file : InputFile) (p : Path) : Run (List (Value × Value)) := do
  if !(← query (·.isThere p)) then throw (.missingFile file p)
  if !(← query (·.isFile p)) then throw (.notFile file p)
  match ← lift (yamlFailure p) (Value.ofYaml (← readText p)) with
  | .map entries => return entries
  | v => throw (.notMapping v.typeName)

/-- The raw schema in a file. -/
def loadSchema (p : Path) : Run (List (Value × Value)) := loadMapping .schema p

/-- The settings in a file, if there is one, changed by further values. -/
def loadSettings (file : Option Path) (changes : List (Value × Value)) : Run Settings := do
  let entries ←
    match file with
    | some p => loadMapping .settings p
    | none => pure []
  lift .badSettings (Settings.ofEntries (Settings.override entries changes))

end Scaffold.Run
