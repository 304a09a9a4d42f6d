import Scaffold.Code.Stmt
import Scaffold.Field.Basic

/-!
# Code for uploaded files

The statements that store, replace and release the files of a record. A replaced file goes in
three steps: its old reference is captured, the new file is uploaded and the row persisted,
and only then is the old file deleted.
-/

namespace Scaffold.Attachment

open Text

/-- Columns that name a record, the best first. -/
def nameColumns : List String :=
  ["name", "title", "business_name", "company_name", "product_name"]

/-- The field whose value names uploaded files: a column that names the record, otherwise the
first string that is no foreign key. -/
def nameField? (fields : List Field) : Option String :=
  match nameColumns.find? fun column ↦ fields.any (·.name == column) with
  | some column => some column
  | none =>
    (fields.find? fun f ↦ f.baseType == "string" && !contains f.name "_id").map (·.name)

/-- The storage folder of an entity's files. -/
def folder (entity : String) : String := Name.table entity

/-- The variable that holds the old reference of a field. -/
def oldVariable (path field : String) : String := "$old" ++ Name.studly path ++ Name.studly field

/-- The expression that an uploaded file is named after. -/
def nameSource (fields : List Field) (data : String) (fallback : Option String) : String :=
  match nameField? fields with
  | none => "Str::random(10)"
  | some field =>
    let given := s!"{data}['{field}'] ?? "
    match fallback with
    | some record => given ++ s!"{record}->{field} ?? Str::random(10)"
    | none => given ++ "Str::random(10)"

/-- Computes the short slug that uploaded files are named after. -/
def nameCode (fields : List Field) (data slug : String) (fallback : Option String) :
    List Stmt :=
  if (Field.attachments fields).isEmpty then []
  else
    let source := nameSource fields data fallback
    [.line s!"{slug} = (string) ({source});",
      .braces s!"if (strlen({slug}) > 20)" [.line s!"{slug} = substr({slug}, 0, 20);"],
      .line s!"{slug} = Str::slug({slug});"]

/-- Replaces one uploaded file in the data by its stored reference. -/
def uploadField (entity data slug field : String) : Stmt :=
  let value := s!"{data}['{field}']"
  let store := folder entity
  .braces s!"if (isset({value}) && {value} instanceof UploadedFile)"
    [.line s!"{value} = uploadFile({value}, '{store}', {slug} . '_{field}');"]

def uploadCode (fields : List Field) (entity data slug : String) : List Stmt :=
  (Field.attachments fields).map (uploadField entity data slug)

/-- Remembers the current reference of one file. -/
def captureField (record path field : String) : Stmt :=
  let old := oldVariable path field
  .line s!"{old} = {record}->{field};"

def captureCode (fields : List Field) (record path : String) : List Stmt :=
  (Field.attachments fields).map (captureField record path)

/-- Deletes one captured file that the persisted data replaced. -/
def releaseField (data path field : String) : Stmt :=
  let old := oldVariable path field
  let value := s!"{data}['{field}']"
  .braces s!"if (isset({value}) && {old} && {value} !== {old})" [.line s!"deleteFile({old});"]

def releaseCode (fields : List Field) (data path : String) : List Stmt :=
  (Field.attachments fields).map (releaseField data path)

/-- Deletes one file of a record that goes away. -/
def purgeField (record field : String) : Stmt :=
  .braces s!"if ({record}->{field})" [.line s!"deleteFile({record}->{field});"]

def purgeCode (fields : List Field) (record : String) : List Stmt :=
  (Field.attachments fields).map (purgeField record)

end Scaffold.Attachment
