import Scaffold.Field.Basic
import Scaffold.Value.Basic

/-!
# Sample values

A representative value of a field, once as a faker expression for factories and once as plain
data for example payloads. What decides, in this order: a foreign key, an attachment, a hint in
the column's name, the type.
-/

namespace Scaffold

/-- A sample in its two forms. -/
structure Sample where
  /-- The expression that a factory evaluates. -/
  faker : String
  /-- The value in an example payload. -/
  payload : Value

namespace Sample

def ofText (faker value : String) : Sample := ⟨faker, .text value⟩

/-- Fragments of column names with the samples they suggest; the first one found counts. -/
def nameHints : List (List String × Sample) :=
  [(["email"], ofText "$this->faker->unique()->safeEmail()" "jane.doe@example.com"),
    (["phone"], ofText "$this->faker->phoneNumber()" "+1-555-0100"),
    (["url", "website"], ofText "$this->faker->url()" "https://example.com"),
    (["address"], ofText "$this->faker->address()" "221B Baker Street"),
    (["city"], ofText "$this->faker->city()" "Springfield"),
    (["state"], ofText "$this->faker->state()" "Oregon"),
    (["country"], ofText "$this->faker->country()" "Canada"),
    (["postal", "zip"], ofText "$this->faker->postcode()" "90210"),
    (["name"], ofText "$this->faker->name()" "Jane Doe"),
    (["title"], ofText "$this->faker->sentence(3)" "A sample title"),
    (["slug"], ofText "$this->faker->unique()->slug()" "a-sample-title"),
    (["description", "comment"],
      ofText "$this->faker->paragraph()" "Lorem ipsum dolor sit amet."),
    (["color"], ofText "$this->faker->hexColor()" "#3366ff")]

/-- The sample that a column's name suggests. Letters count in either case. -/
def ofName? (name : String) : Option Sample :=
  let small := Text.lower name
  (nameHints.find? fun hint ↦ hint.1.any (Text.contains small)).map (·.2)

/-- The number 99.5. -/
def price : Value := .float (.ofDecimal false 995 (-1))

/-- The sample of a type. -/
def ofType (baseType : String) : Sample :=
  match baseType with
  | "text" => ofText "$this->faker->paragraph()" "Lorem ipsum dolor sit amet."
  | "integer" => ⟨"$this->faker->numberBetween(1, 100)", .int 10⟩
  | "bigInteger" => ⟨"$this->faker->numberBetween(1, 100000)", .int 1000⟩
  | "boolean" => ⟨"$this->faker->boolean()", .bool true⟩
  | "date" => ofText "$this->faker->date()" "2024-01-15"
  | "dateTime" | "timestamp" => ofText "$this->faker->dateTime()" "2024-01-15 10:30:00"
  | "double" | "decimal" | "float" => ⟨"$this->faker->randomFloat(2, 0, 1000)", price⟩
  | "json" => ⟨"[]", .map []⟩
  | _ => ofText "$this->faker->word()" "sample"

end Sample

namespace Field

/-- The factory call of the model whose table is `table`. -/
def factoryCall (table : String) : String :=
  let model := Name.studly (Name.singular table)
  s!"\\App\\Models\\{model}::factory()"

/-- The sample of a field. -/
def sample (f : Field) : Sample :=
  if f.isForeignId then
    match f.references with
    | some table => if table == "" then ⟨"1", .int 1⟩ else ⟨factoryCall table, .int 1⟩
    | none => ⟨"1", .int 1⟩
  else if f.isAttachment then .ofText "null" "<file upload>"
  else (Sample.ofName? f.name).getD (Sample.ofType f.baseType)

/-- Columns that the database fills in by itself. -/
def managedColumns : List String := ["id", "created_at", "updated_at", "deleted_at"]

end Field

end Scaffold
