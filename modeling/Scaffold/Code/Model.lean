import Scaffold.Code.Crud
import Scaffold.Field.Column

/-!
# Models, resources and migrations

The fragments of the generated model class, of its resource and collection, and of the
migration that creates its table.
-/

namespace Scaffold.Code

/-- The cast of an attribute of the given type. -/
def cast? (baseType : String) : Option String :=
  match baseType with
  | "json" => some "array"
  | "boolean" => some "boolean"
  | "integer" => some "integer"
  | "float" | "double" | "decimal" => some "float"
  | "date" => some "date"
  | "dateTime" | "datetime" | "timestamp" => some "datetime"
  | _ => none

def casts (c : Configuration) : String :=
  let lines := c.fields.filterMap fun f ↦ (cast? f.baseType).map fun cast ↦ s!"'{f.name}' => '{cast}'"
  if lines.isEmpty then ""
  else "\n            " ++ ",\n            ".intercalate lines ++ ",\n        "

def fillable (c : Configuration) : String :=
  ",\n        ".intercalate (c.fields.map fun f ↦ s!"'{f.name}'")

/-- The accessor that turns the reference of a stored file into its address. -/
def getter (field : String) : String :=
  let studly := Name.studly field
  s!"\n\n    public function get{studly}Attribute($value): ?string\n" ++
    "    \x7b\n        return getFileUrl($value);\n    \x7d"

def model (c : Configuration) : Placeholders :=
  let withFactory := c.toggles.isOn .seeder
  [("model", c.studly),
    ("fillable", fillable c),
    ("relations", String.join (c.relations.map Relation.method)),
    ("casts", casts c),
    ("getter", String.join (c.attachments.map getter)),
    ("setter", ""),
    ("use_statements",
      if withFactory then "use Illuminate\\Database\\Eloquent\\Factories\\HasFactory;\n" else ""),
    ("traits", if withFactory then "\n    use HasFactory;\n" else ""),
    ("primary_key", "")]

/-- The attributes that a resource shows: the identifier, every field and every relation. -/
def projection (c : Configuration) : List String :=
  "'id' => $this->id," ::
    c.fields.map (fun f ↦ s!"'{f.name}' => $this->{f.name},") ++
    c.relations.map fun r ↦ s!"'{r.name}' => $this->whenLoaded('{r.name}'),"

def resource (c : Configuration) : Placeholders :=
  [("model", c.studly), ("class", c.className "Resource"),
    ("fields", "\n            ".intercalate (projection c))]

def collection (c : Configuration) : Placeholders :=
  [("model", c.studly), ("class", c.className "Collection"), ("modelVar", c.camel)]

/-- The statement of a unique constraint. -/
def uniqueStatement (columns : List String) : String :=
  let statement :=
    match columns with
    | [column] => s!"$table->unique('{column}');\n"
    | columns =>
      let joined := "', '".intercalate columns
      s!"$table->unique(['{joined}']);\n"
  Text.spaces 12 ++ statement

def migration (c : Configuration) : Placeholders :=
  let columns := String.join (c.fields.map Field.column ++ c.unique.map uniqueStatement)
  [("table", c.table), ("columns", Text.stripEnd columns)]

end Scaffold.Code
