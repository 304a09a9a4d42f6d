import Scaffold.Value.Literal

/-!
# Validation reports

The findings of a validation, errors and warnings, in the order in which they were made.
-/

namespace Scaffold

/-- An error makes a schema unusable, a warning does not. -/
inductive Level where
  | error
  | warning
  deriving DecidableEq

/-- One finding. -/
structure Finding where
  level : Level
  code : String
  message : String
  /-- What the finding is about. -/
  context : List (Value × Value)

namespace Finding

def isError (f : Finding) : Bool := f.level == .error

def isWarning (f : Finding) : Bool := f.level == .warning

def levelName (f : Finding) : String := if f.isError then "error" else "warning"

/-- The finding in one line. -/
def line (f : Finding) : String :=
  let level := if f.isError then "ERROR" else "WARNING"
  s!"[{level}] {f.code}: {f.message}"

/-- The lines of a finding in a printed report. -/
def reportLines (f : Finding) : List String :=
  let mark := if f.isError then "❌" else "⚠️"
  s!"  {mark} [{f.code}] {f.message}" ::
    f.context.map fun (key, v) ↦ "       " ++ key.plain ++ ": " ++ v.plain

/-- A finding as a raw value. -/
def toValue (f : Finding) : Value :=
  .map [(.text "level", .text f.levelName), (.text "code", .text f.code),
    (.text "message", .text f.message),
    (.text "context", .map f.context)]

end Finding

/-- The findings of a validation. -/
structure ValidationReport where
  findings : List Finding

namespace ValidationReport

def empty : ValidationReport := ⟨[]⟩

def add (r : ValidationReport) (f : Finding) : ValidationReport := ⟨r.findings ++ [f]⟩

/-- The findings of the first report and then those of the second. -/
def merge (r s : ValidationReport) : ValidationReport := ⟨r.findings ++ s.findings⟩

def errors (r : ValidationReport) : List Finding := r.findings.filter Finding.isError

def warnings (r : ValidationReport) : List Finding := r.findings.filter Finding.isWarning

/-- A schema is valid if nothing worse than a warning was found. -/
def isValid (r : ValidationReport) : Bool := r.errors.isEmpty

/-- The codes that occur, each once, in code point order. -/
def codes (r : ValidationReport) : List String :=
  (r.findings.map (·.code)).eraseDups.mergeSort fun a b ↦ a ≤ b

def summary (r : ValidationReport) : String :=
  let errors := r.errors.length
  let warnings := r.warnings.length
  s!"Validation: {errors} error(s), {warnings} warning(s)."

/-- A one-line description. -/
def describe (r : ValidationReport) : String := s!"<ValidationResult {r.summary}>"

/-- The report in several lines. -/
def format (r : ValidationReport) : String :=
  Text.joinLines (r.summary :: "" :: r.findings.flatMap Finding.reportLines)

/-- What is said when the schema is refused: the first error. -/
def refusal (r : ValidationReport) : String :=
  let first :=
    match r.errors with
    | [] => "invalid schema"
    | f :: _ => f.message
  s!"Schema validation failed: {first}"

theorem isValid_iff (r : ValidationReport) :
    r.isValid = true ↔ ∀ f ∈ r.findings, f.level = .warning := by
  constructor
  · intro h f hf
    cases hl : f.level with
    | warning => rfl
    | error =>
      have : f ∈ r.errors := List.mem_filter.2 ⟨hf, by simp [Finding.isError, hl]⟩
      simp [isValid, List.isEmpty_iff] at h
      simp [h] at this
  · intro h
    simp only [isValid, List.isEmpty_iff, errors, List.filter_eq_nil_iff]
    intro f hf
    simp [Finding.isError, h f hf]

end ValidationReport

end Scaffold
