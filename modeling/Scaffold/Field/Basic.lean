import Scaffold.Field.Tokens
import Scaffold.Name.Plural

/-!
# Fields

A field of an entity is a column name with a definition `type:modifier:modifier`. The first
token is the type; for `foreignId` the second one is the referenced table; the others are
modifiers and keep their order. Types that are not known pass through.
-/

namespace Scaffold

open Text

/-- A parsed field definition. -/
structure Field where
  /-- The column. -/
  name : String
  /-- The definition as written, without outer blanks. -/
  raw : String
  /-- The first token of the definition. -/
  baseType : String
  /-- The table that a `foreignId` names. -/
  references : Option String
  /-- The remaining tokens in the order written. -/
  modifiers : List String
  deriving DecidableEq

/-- Why a field definition cannot be read. -/
inductive FieldError where
  /-- The definition is blank. -/
  | empty (field : String)
  /-- The definition starts with a colon. -/
  | noBaseType (field text : String)
  deriving DecidableEq

def FieldError.message : FieldError → String
  | .empty field => s!"Field '{field}' has an empty type definition."
  | .noBaseType field text => s!"Field '{field}' has no base type: '{text}'."

namespace Field

/-- Reads the definition `text` of the column `name`. -/
def parse (name text : String) : Except FieldError Field :=
  let raw := strip text
  if raw == "" then .error (.empty name)
  else
    match tokens raw with
    | [] => .error (.noBaseType name text)
    | baseType :: rest =>
      if baseType == "" then .error (.noBaseType name text)
      else
        let (references, rest) :=
          match rest with
          | table :: more => if baseType == "foreignId" then (some table, more) else (none, rest)
          | [] => (none, [])
        .ok ⟨name, raw, baseType, references, foldDefaults (rest.filter (· != ""))⟩

/-- Reads all definitions of an entity, up to the first that cannot be read. -/
def parseAll (definitions : List (String × String)) : Except FieldError (List Field) :=
  definitions.mapM fun (name, text) ↦ parse name text

def isNullable (f : Field) : Bool := f.modifiers.contains "nullable"

def isUnique (f : Field) : Bool := f.modifiers.contains "unique"

def isForeignId (f : Field) : Bool := f.baseType == "foreignId"

/-- Fields of these types hold uploaded files. -/
def isAttachment (f : Field) : Bool := f.baseType == "image" || f.baseType == "file"

/-- The first modifier that gives a default. -/
def default? (f : Field) : Option String := f.modifiers.find? (startsWith · "default")

/-- Writes the definition again. -/
def render (f : Field) : String :=
  ":".intercalate (f.baseType :: f.references.toList ++ f.modifiers)

/-- A one-line description. -/
def describe (f : Field) : String := s!"<FieldSpec {f.name}={f.render}>"

def find? (fields : List Field) (name : String) : Option Field :=
  fields.find? (·.name == name)

/-- The names of the fields that hold uploaded files. -/
def attachments (fields : List Field) : List String :=
  (fields.filter isAttachment).map (·.name)

/-- The modifiers with a meaning of their own. -/
def knownModifiers : List String := ["nullable", "unique", "default"]

/-- The table that a column such as `category_id` points at if its definition names none. -/
def guessedTable (column : String) : String :=
  Name.table (if endsWith column "_id" then dropLastChars 3 column else column)

end Field

end Scaffold
