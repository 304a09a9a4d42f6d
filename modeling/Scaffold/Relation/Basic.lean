import Scaffold.Name.Plural

/-!
# Relations

A relation has a name, a kind and a target entity.
-/

namespace Scaffold

/-- The kinds of relation between two entities. -/
inductive RelationKind where
  | belongsTo
  | hasOne
  | hasMany
  | belongsToMany
  deriving DecidableEq

namespace RelationKind

def name : RelationKind → String
  | .belongsTo => "belongsTo"
  | .hasOne => "hasOne"
  | .hasMany => "hasMany"
  | .belongsToMany => "belongsToMany"

/-- The class of the relation objects of a kind. -/
def className : RelationKind → String
  | .belongsTo => "BelongsTo"
  | .hasOne => "HasOne"
  | .hasMany => "HasMany"
  | .belongsToMany => "BelongsToMany"

/-- Does the relation lead to several records? -/
def isPlural : RelationKind → Bool
  | .hasMany | .belongsToMany => true
  | _ => false

def ofName? (s : String) : Option RelationKind :=
  [belongsTo, hasOne, hasMany, belongsToMany].find? (·.name == s)

theorem ofName?_name (k : RelationKind) : ofName? k.name = some k := by cases k <;> decide

/-- The usual spelling of a kind: `has_many` and `HasMany` are `hasMany`. -/
def normalize (s : String) : String := Name.camel (Text.strip s)

end RelationKind

/-- One relation of an entity. -/
structure Relation where
  /-- The accessor. -/
  name : String
  kind : RelationKind
  /-- The related entity in studly case. -/
  target : String
  deriving DecidableEq

namespace Relation

/-- The key under which a nested payload travels. -/
def requestKey (r : Relation) : String := Name.snake r.name

/-- Payloads may be nested under all relations but `belongsTo`. -/
def isNestable (r : Relation) : Bool := r.kind != .belongsTo

/-- The accessor of a relation without an alias. -/
def defaultName (kind : RelationKind) (target : String) : String :=
  Name.camel (if kind.isPlural then Name.plural target else target)

/-- The accessor method of a relation. -/
def method (r : Relation) : String :=
  let className := r.kind.className
  let kind := r.kind.name
  "\n\n" ++
    s!"    public function {r.name}(): \\Illuminate\\Database\\Eloquent\\Relations\\{className}\n" ++
    "    \x7b\n" ++
    s!"        return $this->{kind}({r.target}::class);\n" ++
    "    \x7d"

/-- Adds a relation: one of the same name is replaced in its place. -/
def put (relations : List Relation) (r : Relation) : List Relation :=
  match relations with
  | [] => [r]
  | s :: rest => if s.name == r.name then r :: rest else s :: put rest r

def find? (relations : List Relation) (name : String) : Option Relation :=
  relations.find? (·.name == name)

end Relation

end Scaffold
