import Scaffold.Entity.Component
import Scaffold.Entries
import Scaffold.Relation.Block
import Scaffold.Shape.Reading

/-!
# Entities

An entity as a schema file defines it: definitions of its fields, relations, nested requests
and what to generate. `ofEntries` reads one from the entries of a mapping and reports every
problem; `toEntries` writes it again.
-/

namespace Scaffold

open Text

/-- One unique constraint: a column, or columns that are unique together. -/
inductive UniqueKey where
  | column (name : String)
  | together (names : List String)
  deriving DecidableEq

def UniqueKey.columns : UniqueKey → List String
  | .column name => [name]
  | .together names => names

/-- The definition of an entity. -/
structure Entity where
  /-- Columns and their definitions. -/
  fields : List (String × String)
  /-- Relation kinds and their targets. -/
  relations : List (String × Targets)
  /-- Relations whose payloads are nested in the entity's requests. -/
  nestedRequests : List String
  generate : Selection
  generateExcept : List String
  /-- Relations that are loaded with the entity. -/
  eagerLoads : List String
  unique : List UniqueKey
  deriving DecidableEq

namespace Entity

open Shape

/-- The raw text of a field definition; null counts as nothing. -/
def definitionText : Value → String
  | .null => ""
  | v => v.plain

/-- Reads field definitions; keys and values of any kind are taken as text, if they have one. -/
def readFields : Value → Reading (List (String × String))
  | .null => .ok []
  | .map entries =>
    if Value.anyEntryOversize entries then miss (.invalid (oversizeInteger none))
    else .ok (Entries.ofList (entries.map fun e ↦ (e.1.plain, definitionText e.2)))
  | _ => miss .notMapping

def readTargets : Value → Reading Targets
  | .null => .ok .none
  | v => textOrTexts .line .listed v

def readRelations : Value → Reading (List (String × Targets))
  | .null => .ok []
  | v => mapOf readTargets v

/-- Reads a list of names, or one comma list. -/
def readNames : Value → Reading (List String)
  | .null => .ok []
  | .text s => .ok (items s)
  | v => listOf text v

/-- Reads a selection. A text must be `all`; of other values a truth value is tried first, and
if nothing fits, the problems of every form are reported. -/
def readGenerate : Value → Reading Selection
  | .null => .ok .unset
  | .text s =>
    if s == "all" then .ok .all
    else miss (.invalid s!"generate must be a bool, 'all', a list or a map, got '{s}'.")
  | v =>
    match bool v, listOf text v, mapOf bool v with
    | .ok b, _, _ => .ok (.flag b)
    | _, .ok names, _ => .ok (.listed names)
    | _, _, .ok choices => .ok (.chosen choices)
    | .error asBool, .error asList, .error asMap =>
      .error (asBool.map (·.within "bool") ++ ⟨["str"], .notText⟩ ::
        asList.map (·.within "list[str]") ++ asMap.map (·.within "dict[str,bool]"))

def readUnique : Value → Reading (List UniqueKey) := listOf (textOrTexts .column .together)

/-- The keys of an entity that are read under one name only. -/
def plainKeys : List String :=
  ["fields", "relations", "nested_requests", "generate", "generate_except", "unique"]

/-- The key that holds the relations to load: `with`, or its long name if `with` is not there. -/
def eagerKey (entries : List (Value × Value)) : String :=
  if (Value.lookup? entries "with").isSome then "with" else "with_relations"

/-- Reads the value of a key that may be missing. -/
def readKey {α : Type} (entries : List (Value × Value)) (key shown : String) (missing : α)
    (read : Value → Reading α) : Reading α :=
  match Value.lookup? entries key with
  | some v => within shown (read v)
  | none => .ok missing

/-- Reads an entity from the entries of a mapping. -/
def ofEntries (entries : List (Value × Value)) : Reading Entity :=
  let fields := readKey entries "fields" "fields" [] readFields
  let relations := readKey entries "relations" "relations" [] readRelations
  let nested := readKey entries "nested_requests" "nested_requests" [] readNames
  let generate := readKey entries "generate" "generate" .unset readGenerate
  let without := readKey entries "generate_except" "generate_except" [] readNames
  let eager := readKey entries (eagerKey entries) "with" [] readNames
  let unique := readKey entries "unique" "unique" [] readUnique
  let read : Reading (List UniqueKey → Entity) :=
    ((((both Entity.mk fields relations).ap nested).ap generate).ap without).ap eager
  also (unexpected (eagerKey entries :: plainKeys) entries) (read.ap unique)

/-- Reads an entity from a raw value. -/
def ofValue : Value → Reading Entity
  | .map entries => ofEntries entries
  | _ => miss .notEntity

def targetsValue : Targets → Value
  | .none => .null
  | .line s => .text s
  | .listed lines => .list (lines.map .text)

def uniqueValue : UniqueKey → Value
  | .column name => .text name
  | .together names => .list (names.map .text)

def namesValue (names : List String) : Value := .list (names.map .text)

/-- The parts of an entity as raw values, under the names of its keys. -/
def toEntries (e : Entity) : List (String × Value) :=
  [("fields", .map (e.fields.map fun f ↦ (.text f.1, .text f.2))),
    ("relations", .map (e.relations.map fun r ↦ (.text r.1, targetsValue r.2))),
    ("nested_requests", namesValue e.nestedRequests),
    ("generate", e.generate.toValue),
    ("generate_except", namesValue e.generateExcept),
    ("with_relations", namesValue e.eagerLoads),
    ("unique", .list (e.unique.map uniqueValue))]

end Entity

end Scaffold
