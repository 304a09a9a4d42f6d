import Scaffold.Calendar
import Scaffold.Disk.Operations
import Scaffold.Artifact.Basic

/-!
# Migrations

The names of migrations. A migration begins with the stamp of its creation and goes on with the
table that it creates, so the migration of a table is found by the end of its name, and sorting
by name is sorting by age.
-/

namespace Scaffold.Migration

def folder : Path := ⟨0, ["database", "migrations"]⟩

/-- How the name of every migration of a table ends. -/
def ending (table : String) : String := s!"_create_{table}_table.php"

/-- The pattern of the names of a table's migrations. -/
def pattern (table : String) : String := "*" ++ ending table

/-- The pattern of the paths of a table's migrations. -/
def pathPattern (table : String) : String := (folder.child (pattern table)).toString

/-- The name of a migration that is created now. -/
def newName (table : String) (m : Moment) : String := m.migrationStamp ++ ending table

/-- The names of the migrations of a table, oldest first. -/
def existing (d : Disk) (root : Path) (table : String) : Except DiskError (List String) := do
  if !(← d.isDir (root ++ folder)) then return []
  return ((d.list (root ++ folder)).filter (Text.endsWith · (ending table))).mergeSort

/-- The path of the migration of a table: the oldest that is there, or a new one. -/
def path (d : Disk) (root : Path) (table : String) (m : Moment) : Except DiskError Path := do
  match ← existing d root table with
  | name :: _ => return folder.child name
  | [] => return folder.child (newName table m)

end Scaffold.Migration
