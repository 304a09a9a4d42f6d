import Scaffold.Field.Basic
import Scaffold.Log
import Scaffold.Schema.Basic

/-!
# Resolution of nested requests

What an entity's nested requests lead to, across a schema. A resolver remembers the relations
and fields that it has read and the warnings it has given; `Resolve` threads this memory
through a computation, also past an error.

Entities are looked up by studly names. The studly case of a relation's target may differ from
the target itself (`ABC` is `Abc`), so following relations need not end: `tree` and `related`
stop at a depth that no finite walk reaches and say so.
-/

namespace Scaffold

/-- What a resolver remembers. -/
structure Memory where
  relations : List (String × List Relation)
  fields : List (String × List Field)
  /-- Every warning given, once each, oldest first. -/
  warnings : List String
  log : List LogLine

def Memory.empty : Memory := ⟨[], [], [], []⟩

/-- Why nested requests cannot be resolved. -/
inductive ResolveError where
  | field (reason : FieldError)
  /-- The relations can be followed without end. -/
  | endless
  deriving DecidableEq

/-- A computation that uses and extends a resolver's memory. -/
abbrev Resolve (α : Type) := ExceptT ResolveError (StateM Memory) α

/-- A nested request: the relation it follows from the entity `parent`, the fields of the
related entity and that entity's own nested requests. -/
structure NestedRelation where
  parent : String
  relation : Relation
  fields : List Field
  children : List NestedRelation

namespace NestedRelation

/-- The column of the related entity that points back at the parent. -/
def backReference (n : NestedRelation) : String := Name.snake n.parent ++ "_id"

mutual

/-- The number of levels of a tree. -/
def depth : NestedRelation → Nat
  | ⟨_, _, _, children⟩ => depths children + 1

def depths : List NestedRelation → Nat
  | [] => 0
  | n :: rest => max (depth n) (depths rest)

end

end NestedRelation

namespace Schema

/-- The entity with the given name in studly case; of several the last one. -/
def find? (schema : Schema) (name : String) : Option Entity :=
  ((schema.filter fun e ↦ Name.studly e.1 == Name.studly name).getLast?).map (·.2)

def has (schema : Schema) (name : String) : Bool := (schema.find? name).isSome

end Schema

namespace Resolve

/-- Gives a warning, unless it was given before. -/
def warn (message : String) : Resolve Unit := do
  let m ← get
  if m.warnings.contains message then return
  set { m with
    warnings := m.warnings ++ [message]
    log := m.log ++ [LogLine.warning "relations" message] }

/-- Gives warnings one after the other. -/
def warnAll : List String → Resolve Unit
  | [] => return
  | message :: rest => do
    warn message
    warnAll rest

/-- The relations of an entity, read on first use. -/
def relations (schema : Schema) (name : String) : Resolve (List Relation) := do
  let studly := Name.studly name
  match (← get).relations.lookup studly with
  | some known => return known
  | none =>
    let block := ((schema.find? studly).map (·.relations)).getD []
    let (found, messages) := Relation.readAll studly block
    modify fun m ↦
      { m with
        relations := (studly, found) :: m.relations
        log := m.log ++ messages.map (LogLine.warning "relations") }
    warnAll messages
    return found

/-- The fields of an entity, read on first use. -/
def fields (schema : Schema) (name : String) : Resolve (List Field) := do
  let studly := Name.studly name
  match (← get).fields.lookup studly with
  | some known => return known
  | none =>
    match Field.parseAll (((schema.find? studly).map (·.fields)).getD []) with
    | .error reason => throw (.field reason)
    | .ok found =>
      modify fun m ↦ { m with fields := (studly, found) :: m.fields }
      return found

/-- The relation that a request names: by its name, or by the request key of the last relation
that has it. -/
def requested? (relations : List Relation) (request : String) : Option Relation :=
  (Relation.find? relations request).or (relations.reverse.find? (·.requestKey == request))

/-- Goes through the requests of an entity; each relation is kept at its first mention. -/
def select (studly : String) (relations : List Relation) :
    List String → List Relation → Resolve (List Relation)
  | [], chosen => return chosen
  | request :: rest, chosen => do
    match requested? relations request with
    | none =>
      warn s!"{studly}: nested request '{request}' does not match any relation; skipped."
      select studly relations rest chosen
    | some r =>
      if !r.isNestable then
        let kind := r.kind.name
        warn <| s!"{studly}: nested request '{request}' is a {kind} relation " ++
          "and cannot be nested; skipped."
        select studly relations rest chosen
      else if chosen.contains r then select studly relations rest chosen
      else select studly relations rest (chosen ++ [r])

/-- The relations that the nested requests of an entity follow, in the order of the requests. -/
def nested (schema : Schema) (name : String) : Resolve (List Relation) := do
  let studly := Name.studly name
  match schema.find? studly with
  | none => return []
  | some e =>
    let known ← relations schema studly
    select studly known e.nestedRequests []

/-- The tree of nested requests, down to `fuel` levels. An entity on the path to it becomes a
leaf. -/
def treeTo (schema : Schema) : Nat → String → List String → Resolve (List NestedRelation)
  | 0, _, _ => throw .endless
  | fuel + 1, name, visited => do
    let studly := Name.studly name
    let path := studly :: visited
    (← nested schema studly).mapM fun r ↦ do
      if r.kind == .belongsToMany then return ⟨studly, r, [], []⟩
      if !schema.has r.target then
        warn <| s!"{studly}: nested relation '{r.name}' targets '{r.target}', " ++
          "which is not defined in the schema."
        return ⟨studly, r, [], []⟩
      let found ← fields schema r.target
      if path.contains r.target then return ⟨studly, r, found, []⟩
      return ⟨studly, r, found, ← treeTo schema fuel r.target path⟩

/-- Adds the names that are new. -/
def addNew (names more : List String) : List String :=
  more.foldl (fun acc name ↦ if acc.contains name then acc else acc ++ [name]) names

/-- The entities that nested requests lead to, down to `fuel` levels, with the entities seen so
far. -/
def relatedTo (schema : Schema) :
    Nat → String → List String → Resolve (List String × List String)
  | 0, _, _ => throw .endless
  | fuel + 1, name, seen => do
    let studly := Name.studly name
    (← nested schema studly).foldlM
      (fun (collected, seen) r ↦ do
        if r.kind == .belongsToMany then return (collected, seen)
        let collected := addNew collected [r.target]
        if seen.contains r.target then return (collected, seen)
        let (deeper, seen) ← relatedTo schema fuel r.target seen
        return (addNew collected (deeper.filter (· != studly)), seen))
      ([], studly :: seen)

/-- A depth that walks which end do not reach: the path grows by an entity at least every time
all entities have been met. -/
def enough (schema : Schema) : Nat := (schema.length + 2) * (schema.length + 2)

/-- The tree of nested requests of an entity. -/
def tree (schema : Schema) (name : String) (visited : List String) :
    Resolve (List NestedRelation) :=
  treeTo schema (enough schema) name visited

/-- The entities that the nested requests of an entity lead to, in order of discovery. -/
def related (schema : Schema) (name : String) (visited : List String) : Resolve (List String) := do
  return (← relatedTo schema (enough schema) name visited).1

end Resolve

end Scaffold
