import Scaffold.Log
import Scaffold.Schema.Basic
import Scaffold.Validation.Issue

/-!
# Validation of schemas

The checks on a schema. Names and shapes are checked on the raw mapping; only if they are in
order, the entities are read and checked against each other.
-/

namespace Scaffold.Validation

open Text

/-- A letter or an underscore. -/
def isNameStart (c : Char) : Bool := c.isAlpha || c == '_'

/-- The text without one final line feed. -/
def withoutFinalFeed (s : List Char) : List Char :=
  if s.getLast? == some '\n' then s.dropLast else s

/-- Letters, digits and underscores, with no digit first. A final line feed is let pass. -/
def isIdentifier (s : String) : Bool :=
  match withoutFinalFeed s.toList with
  | [] => false
  | c :: rest => isNameStart c && rest.all fun d ↦ d.isAlphanum || d == '_'

/-- Letters and digits with a capital first. A final line feed is let pass. -/
def isStudly (s : String) : Bool :=
  match withoutFinalFeed s.toList with
  | [] => false
  | c :: rest => c.isUpper && rest.all Char.isAlphanum

/-- Checks entity names; `seen` pairs the studly names so far with their keys. -/
def namesFrom (seen : List (String × String)) : List String → List Issue
  | [] => []
  | key :: rest =>
    if !isIdentifier key then .invalidName key :: namesFrom seen rest
    else
      let studly := Name.studly key
      let spelling := if isStudly key then [] else [.notStudly key]
      let repeated :=
        match seen.lookup studly with
        | some first => [.duplicate first key]
        | none => []
      spelling ++ repeated ++ namesFrom ((studly, key) :: seen) rest

/-- Names are identifiers and differ in studly case. -/
def checkNames (keys : List Value) : List Issue := namesFrom [] (keys.map Value.plain)

/-- Entries have the shape of entities; null is an entity without anything. -/
def checkShapes (raw : List (Value × Value)) : List Issue :=
  raw.flatMap fun (name, v) ↦
    match v with
    | .null => (Shape.problems (Entity.ofEntries [])).map (.misshapen name)
    | .map entries => (Shape.problems (Entity.ofEntries entries)).map (.misshapen name)
    | v => [.entityNotMapping name v.typeName]

/-- Only known components are named. -/
def checkComponents (schema : Schema) : List Issue :=
  schema.flatMap fun (name, e) ↦
    (e.generate.mentioned ++ e.generateExcept).filterMap fun component ↦
      if (Component.ofName? component).isSome then none
      else some (.unknownComponent name component)

/-- Can one field be read, and does a foreign key name its table? -/
def checkField (entity field definition : String) : List Issue :=
  match Field.parse field definition with
  | .error reason => [.unreadableField entity field reason]
  | .ok f =>
    if !f.isForeignId then []
    else
      match f.references with
      | none => [.foreignWithoutTable entity field]
      | some table =>
        if Field.knownModifiers.contains (cutFirst '(' table).1 then
          [.modifierAsTable entity field table]
        else []

def checkFields (schema : Schema) : List Issue :=
  schema.flatMap fun (name, e) ↦
    (if e.fields.isEmpty then [.noFields name] else []) ++
      e.fields.flatMap fun (field, definition) ↦ checkField name field definition

/-- The names under which a relation may be requested. -/
def requestNames (relations : List Relation) : List String :=
  relations.map (·.name) ++ relations.map Relation.requestKey

/-- The relations of one entity: known kinds, and targets among the studly names `defined`. -/
def checkEntityRelations (defined : List String) (name : String) (e : Entity) : List Issue :=
  let relations := (Relation.readAll "" e.relations).1
  let known := requestNames relations
  (e.relations.filterMap fun (kind, _) ↦
      if (RelationKind.ofName? (RelationKind.normalize kind)).isSome then none
      else some (.unknownKind name kind)) ++
    (relations.filterMap fun r ↦
      if defined.contains r.target then none
      else some (.unknownTarget name r.name r.target)) ++
    (e.nestedRequests.filterMap fun request ↦
      if known.contains request then none else some (.danglingNested name request)) ++
    (e.eagerLoads.filterMap fun relation ↦
      if known.contains relation then none else some (.unknownEagerLoad name relation))

def checkRelations (schema : Schema) : List Issue :=
  let defined := schema.map fun (name, _) ↦ Name.studly name
  schema.flatMap fun (name, e) ↦ checkEntityRelations defined name e

/-- Unique constraints name columns, and these are fields of the entity. -/
def checkUnique (schema : Schema) : List Issue :=
  schema.flatMap fun (name, e) ↦
    e.unique.flatMap fun key ↦
      if key.columns.isEmpty then [.emptyUnique name]
      else
        key.columns.filterMap fun column ↦
          if (e.fields.map Prod.fst).contains column then none
          else some (.unknownColumn name column)

/-- The checks that see all entities, in their order. -/
def crossChecks (schema : Schema) : List Issue :=
  checkComponents schema ++ checkFields schema ++ checkRelations schema ++ checkUnique schema

def report (issues : List Issue) : ValidationReport := ⟨issues.map Issue.finding⟩

/-- The checks on names and shapes. -/
def shapeChecks (raw : List (Value × Value)) : List Issue :=
  checkNames (raw.map Prod.fst) ++ checkShapes raw

/-- Does the list hold an error? -/
def hasError (issues : List Issue) : Bool := issues.any (·.level == .error)

/-- All issues of a raw schema. -/
def issues : Value → List Issue
  | .map [] => [.emptySchema]
  | .map raw =>
    if hasError (shapeChecks raw) then shapeChecks raw
    else
      match Schema.ofEntries raw with
      | .ok schema => shapeChecks raw ++ crossChecks schema
      | .error _ => shapeChecks raw
  | v => [.schemaNotMapping v.typeName]

/-- Validates a raw schema whose keys have texts. -/
def validate (raw : Value) : ValidationReport := report (issues raw)

/-- Validates a raw schema, unless one of its keys has no text. -/
def examine (raw : Value) : Except KeyError ValidationReport :=
  match raw with
  | .map entries =>
    if entries.any (·.1.isOversize) then .error .oversize else .ok (validate raw)
  | raw => .ok (validate raw)

/-- The lines that the relation blocks of a schema log when they are read. -/
def relationLog (schema : Schema) : List LogLine :=
  schema.flatMap fun (_, e) ↦
    (Relation.readAll "" e.relations).2.map (LogLine.warning "relations")

/-- What a validation logs. -/
def log (raw : Value) : List LogLine :=
  let result := validate raw
  match raw with
  | .map [] => []
  | .map entries =>
    if hasError (shapeChecks entries) then
      [.error "validators" s!"Schema shape validation failed. {result.summary}"]
    else
      let errors := result.errors.length
      let verdict :=
        if result.isValid then LogLine.info "validators" s!"Validation PASSED. {result.summary}"
        else
          LogLine.error "validators"
            s!"Validation FAILED with {errors} error(s). {result.summary}"
      match Schema.ofEntries entries with
      | .ok schema => relationLog schema ++ [verdict]
      | .error _ => [verdict]
  | _ => []

end Scaffold.Validation
