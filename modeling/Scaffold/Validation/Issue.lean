import Scaffold.Entity.Basic
import Scaffold.Field.Basic
import Scaffold.Validation.Report

/-!
# Validation issues

Everything that a validation can find, as causes. `Issue.finding` gives each its level, its
code, its wording and its context.
-/

namespace Scaffold

/-- One thing that may be wrong with a schema. -/
inductive Issue where
  | schemaNotMapping (typeName : String)
  | emptySchema
  | invalidName (key : String)
  | notStudly (key : String)
  | duplicate (first second : String)
  | entityNotMapping (name : Value) (typeName : String)
  | misshapen (name : Value) (problem : Shape.Problem)
  | unknownComponent (entity component : String)
  | noFields (entity : String)
  | unreadableField (entity field : String) (reason : FieldError)
  | foreignWithoutTable (entity field : String)
  | modifierAsTable (entity field modifier : String)
  | unknownKind (entity kind : String)
  | unknownTarget (entity relation target : String)
  | danglingNested (entity request : String)
  | unknownEagerLoad (entity relation : String)
  | emptyUnique (entity : String)
  | unknownColumn (entity column : String)

namespace Issue

def level : Issue → Level
  | schemaNotMapping _ | emptySchema | invalidName _ | duplicate .. | entityNotMapping ..
  | misshapen .. | unknownComponent .. | unreadableField .. | emptyUnique _ => .error
  | _ => .warning

def code : Issue → String
  | schemaNotMapping _ => "SCHEMA_NOT_MAPPING"
  | emptySchema => "EMPTY_SCHEMA"
  | invalidName _ => "INVALID_ENTITY_NAME"
  | notStudly _ => "ENTITY_NAME_NOT_STUDLY"
  | duplicate .. => "DUPLICATE_ENTITY"
  | entityNotMapping .. => "ENTITY_NOT_MAPPING"
  | misshapen .. => "INVALID_ENTITY"
  | unknownComponent .. => "UNKNOWN_GENERATE_COMPONENT"
  | noFields _ => "NO_FIELDS"
  | unreadableField .. => "EMPTY_FIELD_SPEC"
  | foreignWithoutTable .. => "FOREIGN_ID_WITHOUT_TABLE"
  | modifierAsTable .. => "FOREIGN_ID_MODIFIER_AS_TABLE"
  | unknownKind .. => "UNKNOWN_RELATION_KIND"
  | unknownTarget .. => "UNKNOWN_RELATION_TARGET"
  | danglingNested .. => "DANGLING_NESTED_REQUEST"
  | unknownEagerLoad .. => "UNKNOWN_WITH_RELATION"
  | emptyUnique _ => "EMPTY_UNIQUE_CONSTRAINT"
  | unknownColumn .. => "UNIQUE_UNKNOWN_COLUMN"

def message : Issue → String
  | schemaNotMapping typeName =>
    s!"Expected a mapping of entities at top level, got {typeName}."
  | emptySchema => "The schema defines no entities."
  | invalidName key => s!"Entity name '{key}' is not a valid identifier."
  | notStudly key =>
    let studly := Name.studly key
    s!"Entity name '{key}' will be generated as '{studly}'."
  | duplicate first second =>
    let studly := Name.studly second
    s!"Entities '{first}' and '{second}' both map to '{studly}'."
  | entityNotMapping name typeName =>
    let entity := name.plain
    s!"Entity '{entity}' must be a mapping, got {typeName}."
  | misshapen name problem =>
    let entity := name.plain
    let place := if problem.path == "" then "entry" else problem.path
    let text := problem.mismatch.message
    s!"Entity '{entity}' → {place}: {text}"
  | unknownComponent entity component =>
    let known := Component.nameList
    s!"Entity '{entity}': unknown generation component '{component}'. Expected one of: {known}."
  | noFields entity => s!"Entity '{entity}' declares no fields."
  | unreadableField _ _ reason => reason.message
  | foreignWithoutTable entity field =>
    s!"Entity '{entity}': foreignId field '{field}' names no referenced table; " ++
      "the table will be guessed from the column."
  | modifierAsTable entity field modifier =>
    s!"Entity '{entity}': foreignId field '{field}' uses '{modifier}' as its referenced table. " ++
      "Put the table name directly after 'foreignId'."
  | unknownKind entity kind => s!"Entity '{entity}': unknown relation kind '{kind}' is ignored."
  | unknownTarget entity relation target =>
    s!"Entity '{entity}': relation '{relation}' targets '{target}', " ++
      "which is not defined in this schema."
  | danglingNested entity request =>
    s!"Entity '{entity}': nested request '{request}' does not match any relation " ++
      "and will be skipped."
  | unknownEagerLoad entity relation =>
    s!"Entity '{entity}': eager-load relation '{relation}' is not declared."
  | emptyUnique entity => s!"Entity '{entity}' declares an empty unique constraint."
  | unknownColumn entity column =>
    s!"Entity '{entity}': unique constraint column '{column}' is not a declared field."

def context : Issue → List (String × Value)
  | schemaNotMapping _ | emptySchema => []
  | invalidName key | notStudly key | duplicate _ key => [("entity", .text key)]
  | entityNotMapping name _ | misshapen name _ => [("entity", name)]
  | unknownComponent entity component =>
    [("entity", .text entity), ("component", .text component)]
  | noFields entity | emptyUnique entity => [("entity", .text entity)]
  | unreadableField entity field _ | foreignWithoutTable entity field
  | modifierAsTable entity field _ => [("entity", .text entity), ("field", .text field)]
  | unknownKind entity kind => [("entity", .text entity), ("kind", .text kind)]
  | unknownTarget entity relation _ | unknownEagerLoad entity relation =>
    [("entity", .text entity), ("relation", .text relation)]
  | danglingNested entity request =>
    [("entity", .text entity), ("nested_request", .text request)]
  | unknownColumn entity column => [("entity", .text entity), ("column", .text column)]

def finding (i : Issue) : Finding :=
  ⟨i.level, i.code, i.message, i.context.map fun (key, v) ↦ (.text key, v)⟩

end Issue

end Scaffold
