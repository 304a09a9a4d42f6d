import Scaffold.Configuration.Basic
import Scaffold.Disk.Path

/-!
# Artifacts

The kinds of file that are generated for an entity, and where each of them lies in a project. A
migration has no fixed place, because its name begins with a stamp.
-/

namespace Scaffold

/-- A kind of generated file. -/
inductive Artifact where
  | model
  | migration
  | request
  | resource
  | collection
  | service
  | controller
  | factory
  | seeder
  deriving DecidableEq

namespace Artifact

def name : Artifact → String
  | model => "model"
  | migration => "migration"
  | request => "request"
  | resource => "resource"
  | collection => "collection"
  | service => "service"
  | controller => "controller"
  | factory => "factory"
  | seeder => "seeder"

def all : List Artifact :=
  [model, migration, request, resource, collection, service, controller, factory, seeder]

/-- The order in which a backup goes through the artifacts of an entity. -/
def backupOrder : List Artifact :=
  [model, service, request, resource, collection, controller, migration, factory, seeder]

/-- The component that an artifact belongs to. -/
def component : Artifact → Component
  | model => .model
  | migration => .migration
  | request => .request
  | resource => .resource
  | collection => .collection
  | service => .service
  | controller => .controller
  | factory | seeder => .seeder

/-- The artifacts that are generated for an entity, in the order of generation. -/
def enabled (t : Toggles) : List Artifact := all.filter fun a ↦ t.isOn a.component

/-- The directory of an artifact and the role of its class. -/
def place (studly : String) : Artifact → Option (String × String)
  | model => some ("app/Models", "")
  | migration => none
  | request => some ("app/Http/Requests", "Request")
  | resource => some ("app/Http/Resources/" ++ studly, "Resource")
  | collection => some ("app/Http/Resources/" ++ studly, "Collection")
  | service => some ("app/Services", "Service")
  | controller => some ("app/Http/Controllers", "Controller")
  | factory => some ("database/factories", "Factory")
  | seeder => some ("database/seeders", "Seeder")

/-- The path of an artifact from the root of the project; none for a migration. -/
def fixedPath? (a : Artifact) (c : Configuration) : Option Path :=
  (a.place c.studly).map fun (folder, role) ↦
    (Path.ofString folder).child (c.className role ++ ".php")

/-- The paths of all artifacts but the migration. -/
def fixedPaths (c : Configuration) : List (Artifact × Path) :=
  all.filterMap fun a ↦ (a.fixedPath? c).map fun p ↦ (a, p)

end Artifact

end Scaffold
