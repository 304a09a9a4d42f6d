import Scaffold.Artifact.Basic
import Scaffold.Code.Model
import Scaffold.Code.Rules
import Scaffold.Code.Sample
import Scaffold.Generation.Writing
import Scaffold.Stub.Source

/-!
# Rendering artifacts

Which stub an artifact is made from and what fills its slots.
-/

namespace Scaffold.Artifact

/-- The key of the stub of an artifact. -/
def stubKey (c : Configuration) : Artifact → String
  | service => Code.serviceStub c
  | controller => Code.controllerStub c
  | a => a.name

/-- What fills the slots of an artifact's stub; `related` are the entities that nested requests
lead to. -/
def placeholders (c : Configuration) (related : List String) : Artifact → Code.Placeholders
  | model => Code.model c
  | migration => Code.migration c
  | request => Code.request c
  | resource => Code.resource c
  | collection => Code.collection c
  | service => Code.service c related
  | controller => Code.controller c related
  | factory => Code.factory c
  | seeder => Code.seeder c

/-- Is a stub missing? -/
def isMissingStub : Failure → Bool
  | .missingStub .. => true
  | _ => false

/-- Renders an artifact. A migration without a stub is rendered from a bare one. -/
def render (stubs : StubSource) (c : Configuration) (related : List String) (a : Artifact) :
    Run Rendering := do
  let values := a.placeholders c related
  match a with
  | migration =>
    match ← Run.attempt isMissingStub (stubs.find "migration") with
    | .ok template => return ⟨Stub.render template values, false⟩
    | .error e =>
      Run.say (LogLine.warning "migration"
        s!"Using fallback migration stub for {c.studly}: {e.message}")
      return ⟨Stub.render Stub.bareMigration values, true⟩
  | a => return ⟨← stubs.render (a.stubKey c) values, false⟩

end Scaffold.Artifact
