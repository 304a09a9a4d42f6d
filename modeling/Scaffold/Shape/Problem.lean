import Scaffold.Value.Literal

/-!
# Shape problems

Where a raw value does not have the shape that an entity or the settings ask for, and how.
-/

namespace Scaffold.Shape

/-- How a value misses the shape asked for. -/
inductive Mismatch where
  | notText
  | notList
  | notMapping
  | notEntity
  | notBool
  | unreadableBool
  | notInt
  | unreadableInt
  | fractionalInt
  | oversizeInt
  | notFinite
  | belowOne
  | unknownPolicy
  | unexpected
  | keyNotText
  | noAttribute (name : String)
  | invalid (reason : String)
  deriving DecidableEq

/-- The code of a mismatch. -/
def Mismatch.code : Mismatch → String
  | .notText => "string_type"
  | .notList => "list_type"
  | .notMapping => "dict_type"
  | .notEntity => "model_type"
  | .notBool => "bool_type"
  | .unreadableBool => "bool_parsing"
  | .notInt => "int_type"
  | .unreadableInt => "int_parsing"
  | .fractionalInt => "int_from_float"
  | .oversizeInt => "int_parsing_size"
  | .notFinite => "finite_number"
  | .belowOne => "greater_than_equal"
  | .unknownPolicy => "enum"
  | .unexpected => "extra_forbidden"
  | .keyNotText => "invalid_key"
  | .noAttribute _ => "no_such_attribute"
  | .invalid _ => "value_error"

/-- What is said of a mismatch. -/
def Mismatch.message : Mismatch → String
  | .notText => "Input should be a valid string"
  | .notList => "Input should be a valid list"
  | .notMapping => "Input should be a valid dictionary"
  | .notEntity => "Input should be a valid dictionary or instance of EntityDefinition"
  | .notBool => "Input should be a valid boolean"
  | .unreadableBool => "Input should be a valid boolean, unable to interpret input"
  | .notInt => "Input should be a valid integer"
  | .unreadableInt => "Input should be a valid integer, unable to parse string as an integer"
  | .fractionalInt => "Input should be a valid integer, got a number with a fractional part"
  | .oversizeInt => "Unable to parse input string as an integer, exceeded maximum size"
  | .notFinite => "Input should be a finite number"
  | .belowOne => "Input should be greater than or equal to 1"
  | .unknownPolicy => "Input should be 'skip', 'prompt' or 'force'"
  | .unexpected => "Extra inputs are not permitted"
  | .keyNotText => "Keys should be strings"
  | .noAttribute name => s!"Object has no attribute '{name}'"
  | .invalid reason => s!"Value error, {reason}"

/-- A mismatch at a place in a value. -/
structure Problem where
  /-- The keys and positions that lead to the place, outermost first. -/
  location : List String
  mismatch : Mismatch
  deriving DecidableEq

/-- The location with dots between its parts. -/
def Problem.path (p : Problem) : String := ".".intercalate p.location

/-- A part of a location as it is printed: in backticks if it holds a dot itself. -/
def printedPart (part : String) : String :=
  if part.toList.contains '.' then "\x60" ++ part ++ "\x60" else part

/-- The location as it is printed. -/
def Problem.printedPath (p : Problem) : String := ".".intercalate (p.location.map printedPart)

/-- The same problem seen from one level further out. -/
def Problem.within (part : String) (p : Problem) : Problem := { p with location := part :: p.location }

/-- A value read, or all problems found in it. -/
abbrev Reading (α : Type) := Except (List Problem) α

/-- A single problem at the place itself. -/
def miss {α : Type} (m : Mismatch) : Reading α := .error [⟨[], m⟩]

/-- The problems of a reading. -/
def problems {α : Type} : Reading α → List Problem
  | .ok _ => []
  | .error ps => ps

/-- Locates the problems of a reading one level further in. -/
def within {α : Type} (part : String) : Reading α → Reading α
  | .ok a => .ok a
  | .error ps => .error (ps.map (·.within part))

/-- Applies a function that was read to a value that was read; the problems of both are kept. -/
def Reading.ap {α β : Type} : Reading (α → β) → Reading α → Reading β
  | .ok f, .ok a => .ok (f a)
  | x, y => .error (problems x ++ problems y)

/-- Joins two readings; the problems of both are kept. -/
def both {α β γ : Type} (f : α → β → γ) (x : Reading α) (y : Reading β) : Reading γ :=
  Reading.ap (x.map f) y

theorem Reading.ap_eq_ok_iff {α β : Type} {x : Reading (α → β)} {y : Reading α} {b : β} :
    x.ap y = .ok b ↔ ∃ f a, x = .ok f ∧ y = .ok a ∧ f a = b := by
  cases x <;> cases y <;> simp [Reading.ap]

theorem both_eq_ok_iff {α β γ : Type} {f : α → β → γ} {x : Reading α} {y : Reading β} {c : γ} :
    both f x y = .ok c ↔ ∃ a b, x = .ok a ∧ y = .ok b ∧ f a b = c := by
  cases x <;> cases y <;> simp [both, Reading.ap, Except.map]

end Scaffold.Shape
