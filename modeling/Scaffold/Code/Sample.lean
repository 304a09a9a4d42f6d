import Scaffold.Code.Crud
import Scaffold.Entries
import Scaffold.Field.Sample
import Scaffold.Value.Json.Printer

/-!
# Factories and example payloads

Sample data for an entity: the definition of its factory, and an example of the payload that
creates a record together with its nested records.
-/

namespace Scaffold.Code

/-- The attributes of a factory; columns that the database manages are left out. -/
def factoryFields (c : Configuration) : String :=
  let lines := (c.fields.filter fun f ↦ !Field.managedColumns.contains f.name).map fun f ↦
    let faker := f.sample.faker
    s!"'{f.name}' => {faker}"
  if lines.isEmpty then ""
  else Text.spaces 12 ++ (",\n" ++ Text.spaces 12).intercalate lines ++ ","

def factory (c : Configuration) : Placeholders :=
  [("model", c.studly), ("fields", factoryFields c)]

def seeder (c : Configuration) : Placeholders := [("model", c.studly)]

/-- The example values of fields, without managed columns and those to `skip`. -/
def exampleFields (fields : List Field) (skip : List String) : List (String × Value) :=
  (fields.filter fun f ↦ !Field.managedColumns.contains f.name && !skip.contains f.name).map
    fun f ↦ (f.name, f.sample.payload)

mutual

/-- The example payload of one nested request. -/
def examplePayload : NestedRelation → Value
  | ⟨parent, r, fields, children⟩ =>
    if r.kind == .belongsToMany then .list [.int 1, .int 2]
    else
      let item := Value.ofPairs <|
        Entries.putAll (exampleFields fields [Name.snake parent ++ "_id"])
          (Entries.ofList (examplePayloads children))
      if r.kind == .hasMany then .list [item] else item

def examplePayloads : List NestedRelation → List (String × Value)
  | [] => []
  | n :: rest => (n.relation.requestKey, examplePayload n) :: examplePayloads rest

end

/-- The example payload of a configuration. -/
def payload (c : Configuration) : List (String × Value) :=
  Entries.putAll (exampleFields c.fields []) (Entries.ofList (examplePayloads c.nested))

end Scaffold.Code
