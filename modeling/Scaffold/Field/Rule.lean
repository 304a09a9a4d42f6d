import Scaffold.Field.Basic

/-!
# Validation rule of a field

Whether a request must hold the field, and what its value must look like.
-/

namespace Scaffold.Field

/-- The checks on a value of a type. -/
def typeRules (baseType : String) : List String :=
  match baseType with
  | "image" => ["image", "mimes:jpeg,jpg,png,gif,webp,svg", "max:2048"]
  | "file" => ["file", "max:10240"]
  | "string" | "text" => ["string"]
  | "integer" | "bigInteger" => ["integer"]
  | "decimal" | "double" | "float" => ["numeric"]
  | "boolean" => ["boolean"]
  | "date" | "dateTime" | "timestamp" => ["date"]
  | "json" => ["array"]
  | _ => []

/-- The table that a `foreignId` field points at. -/
def referencedTable (f : Field) : String :=
  match f.references with
  | some table => if table == "" then guessedTable f.name else table
  | none => guessedTable f.name

/-- The rule, its checks separated by bars. -/
def rule (f : Field) : String :=
  let presence := if f.isNullable then "nullable" else "required"
  let checks :=
    if f.isForeignId then
      let table := f.referencedTable
      [s!"exists:{table},id"]
    else typeRules f.baseType
  "|".intercalate (presence :: checks)

end Scaffold.Field
