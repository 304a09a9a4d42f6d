import Scaffold.Nesting.Resolver

/-!
# Configurations

What all generated code is made from: an entity with its names, fields, relations and nested
requests worked out.
-/

namespace Scaffold

/-- An entity worked out. -/
structure Configuration where
  /-- The key in the schema. -/
  originalName : String
  /-- The name in studly case. -/
  studly : String
  fields : List Field
  relations : List Relation
  nested : List NestedRelation
  toggles : Toggles
  /-- Relations that are loaded with a record. -/
  eagerLoads : List String
  /-- Columns that are unique together. -/
  unique : List (List String)

/-- Why a configuration cannot be built. -/
inductive BuildError where
  | resolve (reason : ResolveError)
  | selection (reason : SelectionError)
  deriving DecidableEq

namespace Configuration

def camel (c : Configuration) : String := Name.camel c.studly

def pluralStudly (c : Configuration) : String := Name.plural c.studly

/-- The plural with a small letter first; a name without letters and digits has none. -/
def pluralCamel? (c : Configuration) : Option String :=
  if c.pluralStudly == "" then none else some (Name.uncapitalize c.pluralStudly)

def table (c : Configuration) : String := Name.table c.studly

/-- The name of the class with the given role, such as `OrderItemService`. -/
def className (c : Configuration) (role : String) : String := c.studly ++ role

def attachments (c : Configuration) : List String := Field.attachments c.fields

def hasNested (c : Configuration) : Bool := !c.nested.isEmpty

/-- A one-line description. -/
def describe (c : Configuration) : String :=
  let fields := c.fields.length
  let relations := c.relations.length
  let nested := c.nested.length
  s!"<ModelConfiguration {c.studly} ({fields} fields, {relations} relations, {nested} nested)>"

/-- Works out one entity. -/
def build (schema : Schema) (name : String) (e : Entity) :
    ExceptT BuildError (StateM Memory) Configuration := do
  let studly := Name.studly name
  let nested ← ExceptT.adapt .resolve (Resolve.tree schema studly [])
  let fields ←
    match Field.parseAll e.fields with
    | .ok fields => pure fields
    | .error reason => throw (.resolve (.field reason))
  let relations ← ExceptT.adapt .resolve (Resolve.relations schema studly)
  let toggles ←
    match Toggles.resolve e.generate e.generateExcept with
    | .ok toggles => pure toggles
    | .error reason => throw (.selection reason)
  let eager := if e.eagerLoads.isEmpty then nested.map (·.relation.name) else e.eagerLoads
  let unique := (e.unique.map UniqueKey.columns).filter (!·.isEmpty)
  return ⟨name, studly, fields, relations, nested, toggles, eager, unique⟩

/-- Works out all entities in file order. -/
def buildAll (schema : Schema) : ExceptT BuildError (StateM Memory) (List Configuration) :=
  schema.mapM fun (name, e) ↦ build schema name e

end Configuration

end Scaffold
