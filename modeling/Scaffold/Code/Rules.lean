import Scaffold.Code.Crud
import Scaffold.Entries
import Scaffold.Field.Rule

/-!
# Form requests

The validation rules of a generated request: a rule for every field of the entity and, under
dotted paths, for every field of its nested requests. The column of a related entity that
points back at its parent has no rule, because the parent supplies it.
-/

namespace Scaffold.Code

/-- Rules under the paths of the values they check. -/
abbrev RuleMap := List (String × String)

/-- The paths and rules of one node itself, below `path`. -/
def ownRules (r : Relation) (path : String) : RuleMap :=
  let table := Name.table r.target
  (path, "nullable|array") ::
    match r.kind with
    | .belongsToMany => [(path ++ ".*", s!"exists:{table},id")]
    | .hasMany =>
      [(path ++ ".*", "required|array"),
        (path ++ ".*.id", s!"sometimes|integer|exists:{table},id")]
    | _ => []

/-- The path below which the fields of a node's items stand. -/
def itemPath (r : Relation) (path : String) : String :=
  if r.kind == .hasMany then path ++ ".*." else path ++ "."

mutual

/-- The rules that a node and the nodes below it contribute, in order. -/
def nodeRules (before : String) : NestedRelation → RuleMap
  | ⟨parent, r, fields, children⟩ =>
    let path := before ++ r.requestKey
    let below := itemPath r path
    ownRules r path ++
      if r.kind == .belongsToMany then []
      else
        ((fields.filter (·.name != Name.snake parent ++ "_id")).map fun f ↦
          (below ++ f.name, f.rule)) ++ nodesRules below children

def nodesRules (before : String) : List NestedRelation → RuleMap
  | [] => []
  | n :: rest => nodeRules before n ++ nodesRules before rest

end

/-- All rules of a configuration; a path that comes again keeps its place and takes the later
rule. -/
def rules (c : Configuration) : RuleMap :=
  Entries.ofList (c.fields.map (fun f ↦ (f.name, f.rule)) ++ nodesRules "" c.nested)

/-- Writes rules as the entries of an array. All lines but the first are indented. -/
def rulesText (rules : RuleMap) : String :=
  let lines := rules.map fun (path, rule) ↦ s!"'{path}' => '{rule}',"
  Text.stripEnd (("\n" ++ Text.spaces 12).intercalate lines)

def request (c : Configuration) : Placeholders :=
  [("model", c.studly), ("class", c.className "Request"), ("rules", rulesText (rules c))]

end Scaffold.Code
