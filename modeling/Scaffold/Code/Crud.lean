import Scaffold.Code.Store
import Scaffold.Code.Update

/-!
# Services and controllers

The fragments of generated services and controllers, as values of the placeholders of their
stubs, and which stub each of them uses.
-/

namespace Scaffold.Code

/-- The values of a stub's placeholders. -/
abbrev Placeholders := List (String × String)

/-- The import lines of the models that nested requests lead to. -/
def importLines (c : Configuration) (related : List String) : String :=
  String.join <|
    (related.filter (· != c.studly)).map fun model ↦ s!"use App\\Models\\{model};\n"

def serviceStub (c : Configuration) : String :=
  if c.hasNested then "service-relation" else "service"

def controllerStub (c : Configuration) : String :=
  if !c.toggles.isOn .service then "controller-without-service"
  else if c.hasNested then "controller-relation"
  else "controller"

/-- The placeholders that services and controllers share. -/
def crud (c : Configuration) (related : List String) : Placeholders :=
  let record := recordVariable c
  [("model", c.studly),
    ("variable", recordName c),
    ("modelPlural", c.pluralStudly),
    ("route", c.table),
    ("storeBody", Stmt.text 2 (storeBody c)),
    ("updateBody", Stmt.text 2 (updateBody c)),
    ("destroyBody", Stmt.text 2 (destroyBody c)),
    ("relationStore", Stmt.text 3 (storeRelations c.nested record "$nested" "")),
    ("relationUpdate", Stmt.text 3 (updateRelations c.nested record "$nested" "")),
    ("relationImports", importLines c related),
    ("with", eagerList c),
    ("serviceUsage", if c.toggles.isOn .service then "service" else "model")]

def service (c : Configuration) (related : List String) : Placeholders :=
  crud c related ++ [("class", c.className "Service")]

def controller (c : Configuration) (related : List String) : Placeholders :=
  crud c related ++ [("class", c.className "Controller")]

end Scaffold.Code
