import Scaffold.Run.Basic
import Scaffold.Stub.Defaults

/-!
# Where stubs come from

A project may have stubs of its own in a directory. The file `<key>.stub` there comes first, then
the packaged stub of the key, if packaged stubs are allowed.
-/

namespace Scaffold

/-- Where stubs are looked for. -/
structure StubSource where
  /-- The directory of the project's own stubs. -/
  folder : Option Path
  useDefaults : Bool

namespace StubSource

/-- The file of a stub of the project's own, if it is there. -/
def file? (s : StubSource) (key : String) : Run (Option Path) := do
  match s.folder with
  | none => return none
  | some folder =>
    let p := folder ++ Path.ofString (key ++ ".stub")
    if ← Run.query (·.isFile p) then return some p else return none

/-- The packaged stub of a key, if it may be used. -/
def packaged? (s : StubSource) (key : String) : Option String :=
  if s.useDefaults then Stub.default? key else none

def has (s : StubSource) (key : String) : Run Bool := do
  return (← s.file? key).isSome || (s.packaged? key).isSome

/-- Where a stub comes from: its path, `default` or `missing`. -/
def origin (s : StubSource) (key : String) : Run String := do
  match ← s.file? key, s.packaged? key with
  | some p, _ => return p.toString
  | none, some _ => return "default"
  | none, none => return "missing"

/-- The stub of a key. -/
def find (s : StubSource) (key : String) : Run String := do
  match ← s.file? key, s.packaged? key with
  | some p, _ => Run.readText p
  | none, some text => return text
  | none, none => throw (.missingStub key s.folder)

/-- The stub of a key with its slots filled. -/
def render (s : StubSource) (key : String) (values : List (String × String)) : Run String := do
  return Stub.render (← s.find key) values

end StubSource

end Scaffold
