import Scaffold.Code.Stmt
import Scaffold.Configuration.Basic
import Scaffold.Text.Quoted

/-!
# Variables and payloads of generated methods

The names of the variables in generated methods, and the code that splits nested payloads off
the data of a record. The variables of a nested level are named after the path to it, so that
no level captures another's.
-/

namespace Scaffold.Code

/-- Variables with a fixed meaning in generated methods. -/
def reserved : List String := ["data", "nested", "this", "imageName"]

/-- The variable of the primary record, without its dollar sign. -/
def recordName (c : Configuration) : String :=
  if reserved.contains c.camel then c.camel ++ "Record" else c.camel

/-- The variable of the primary record. -/
def recordVariable (c : Configuration) : String := "$" ++ recordName c

/-- The name of a nested level below `path`. -/
def pathName (path key : String) : String :=
  if path == "" then Name.camel key else Name.camel (path ++ "_" ++ key)

/-- The keys of nested payloads. -/
def payloadKeys (nodes : List NestedRelation) : List String := nodes.map (·.relation.requestKey)

/-- Splits the nested payloads `keys` off `source`: they go into `nested`, all but them and
`more` into `data`. -/
def splitCode (source : String) (keys : List String) (nested data : String)
    (more : List String) : List Stmt :=
  let taken := Text.quotedList keys
  let left := Text.quotedList (keys ++ more)
  (if keys.isEmpty then [] else [.line s!"{nested} = Arr::only({source}, {taken});"]) ++
    (if (keys ++ more).isEmpty then [.line s!"{data} = {source};"]
    else [.line s!"{data} = Arr::except({source}, {left});"])

/-- Links the records whose identifiers a payload lists. -/
def syncCode (verb parent nested : String) (r : Relation) : List Stmt :=
  let key := r.requestKey
  [.line s!"// {verb} {r.name}",
    .braces s!"if (array_key_exists('{key}', {nested}))"
      [.line s!"{parent}->{r.name}()->sync({nested}['{key}'] ?? []);"]]

/-- The relations to load, as a list of literals without brackets. -/
def eagerList (c : Configuration) : String :=
  ", ".intercalate (c.eagerLoads.map fun name ↦ s!"'{name}'")

/-- Returns the record, with its relations if nested payloads were stored. -/
def returnCode (c : Configuration) : Stmt :=
  let record := recordVariable c
  let loads := eagerList c
  if c.hasNested then .line s!"return {record}->load([{loads}]);" else .line s!"return {record};"

/-- Splits the nested payloads off the data of the primary record, if there are any. -/
def primarySplit (c : Configuration) : List Stmt :=
  if c.hasNested then splitCode "$data" (payloadKeys c.nested) "$nested" "$data" [] else []

mutual

/-- Does the record or anything nested below it hold files? -/
def holdsFiles (fields : List Field) (children : List NestedRelation) : Bool :=
  !(Field.attachments fields).isEmpty || anyHoldsFiles children

def anyHoldsFiles : List NestedRelation → Bool
  | [] => false
  | ⟨_, r, fields, children⟩ :: rest =>
    (r.kind != .belongsToMany && holdsFiles fields children) || anyHoldsFiles rest

end

end Scaffold.Code
