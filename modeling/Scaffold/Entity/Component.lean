import Scaffold.Value.Literal

/-!
# Components

The components that may be generated for an entity, and how a schema selects them.
-/

namespace Scaffold

open Text

/-- What can be generated for an entity. The seeder comes with a factory. -/
inductive Component where
  | model
  | migration
  | controller
  | service
  | request
  | resource
  | collection
  | seeder
  deriving DecidableEq

namespace Component

def all : List Component :=
  [model, migration, controller, service, request, resource, collection, seeder]

def name : Component → String
  | model => "model"
  | migration => "migration"
  | controller => "controller"
  | service => "service"
  | request => "request"
  | resource => "resource"
  | collection => "collection"
  | seeder => "seeder"

def ofName? (s : String) : Option Component := all.find? (·.name == s)

/-- All components but the seeder are generated unless the schema says otherwise. -/
def isDefault (c : Component) : Bool := c != seeder

/-- The names of all components as a list in running text. -/
def nameList : String := ", ".intercalate (all.map name)

theorem mem_all (c : Component) : c ∈ all := by cases c <;> decide

theorem ofName?_name (c : Component) : ofName? c.name = some c := by cases c <;> decide

end Component

/-- How a schema entry selects components. -/
inductive Selection where
  /-- Nothing is said. -/
  | unset
  | flag (on : Bool)
  | all
  /-- Exactly the listed ones. -/
  | listed (names : List String)
  /-- Changes to the default. -/
  | chosen (choices : List (String × Bool))
  deriving DecidableEq

/-- Why a selection cannot be followed. -/
inductive SelectionError where
  | unknown (component source : String)
  /-- The selection has no known form; its literal is given. -/
  | unusable (literal : String)
  /-- The component is only there under a key with outer blanks. -/
  | padded (component : String)
  /-- What to leave out is not a collection of names. -/
  | notNames (typeName : String)
  deriving DecidableEq

def SelectionError.message : SelectionError → String
  | .unknown component source =>
    let known := Component.nameList
    s!"Unknown generation component '{component}' in {source}. Expected one of: {known}."
  | .unusable literal => s!"generate must be a bool, 'all', a list or a mapping, got {literal}."
  | .padded component => s!"'{component}'"
  | .notNames typeName => s!"'{typeName}' object is not iterable"

/-- Which components are on. -/
structure Toggles where
  isOn : Component → Bool

namespace Toggles

/-- The components that are on, in their usual order. -/
def enabled (t : Toggles) : List Component := Component.all.filter t.isOn

def default : Toggles := ⟨Component.isDefault⟩

def none : Toggles := ⟨fun _ ↦ false⟩

def set (t : Toggles) (c : Component) (on : Bool) : Toggles :=
  ⟨fun d ↦ if d = c then on else t.isOn d⟩

/-- Reads component names, ignoring outer blanks. -/
def readNames (source : String) (names : List String) : Except SelectionError (List Component) :=
  names.mapM fun written ↦
    let name := strip written
    match Component.ofName? name with
    | some c => .ok c
    | _ => .error (.unknown name source)

/-- Applies the choices for `components`, looking each up under its plain name. -/
def choose (choices : List (String × Bool)) :
    List Component → Toggles → Except SelectionError Toggles
  | [], t => .ok t
  | c :: rest, t =>
    match choices.lookup c.name with
    | some on => choose choices rest (t.set c on)
    | _ => .error (.padded c.name)

/-- The components that a selection turns on. -/
def select : Selection → Except SelectionError Toggles
  | .unset | .all | .flag true => .ok default
  | .flag false => .ok none
  | .listed names => do
    let components ← readNames "generate" names
    return ⟨fun c ↦ components.contains c⟩
  | .chosen choices => do
    let components ← readNames "generate" (choices.map Prod.fst)
    choose choices components default

/-- Turns off the components to leave out. -/
def leaveOut (t : Toggles) (names : List String) : Except SelectionError Toggles := do
  let components ← readNames "generate_except" names
  return components.foldl (fun t c ↦ t.set c false) t

/-- The components of an entity: what is selected less what is left out. -/
def resolve (selection : Selection) (without : List String) : Except SelectionError Toggles := do
  leaveOut (← select selection) without

end Toggles

namespace Selection

/-- Reads a selection from a raw value, taking every other value for its truth. -/
def ofValue : Value → Except SelectionError Selection
  | .null => .ok .unset
  | .bool b => .ok (.flag b)
  | .text s => if s == "all" then .ok .all else .error (.unusable (Value.text s).literal)
  | .list items => .ok (.listed (items.map Value.plain))
  | .map entries => .ok (.chosen (entries.map fun e ↦ (e.1.plain, !e.2.isFalsy)))
  | v => .error (.unusable v.literal)

/-- The raw value of a selection. -/
def toValue : Selection → Value
  | .unset => .null
  | .flag b => .bool b
  | .all => .text "all"
  | .listed names => .list (names.map .text)
  | .chosen choices => .map (choices.map fun c ↦ (.text c.1, .bool c.2))

/-- The names to leave out, as a raw value gives them: a text stands for its characters, a
mapping for its keys. -/
def namesOf (v : Value) : Except SelectionError (List String) :=
  if v.isFalsy then .ok []
  else
    match v with
    | .text s => .ok (s.toList.map String.singleton)
    | .list items => .ok (items.map Value.plain)
    | .map entries => .ok (entries.map (·.1.plain))
    | v => .error (.notNames v.typeName)

/-- The component names that a selection mentions. -/
def mentioned : Selection → List String
  | .listed names => names
  | .chosen choices => choices.map Prod.fst
  | _ => []

end Selection

/-- The components that raw values select. -/
def Toggles.ofValues (generate without : Value) : Except SelectionError Toggles := do
  let t ← Toggles.select (← Selection.ofValue generate)
  Toggles.leaveOut t (← Selection.namesOf without)

end Scaffold
