/-!
# Log lines

What a run says about itself while it goes on, in the order in which it says it.
-/

namespace Scaffold

inductive Severity where
  | info
  | warning
  | error
  deriving DecidableEq

def Severity.name : Severity → String
  | .info => "INFO"
  | .warning => "WARNING"
  | .error => "ERROR"

/-- Higher ranks are more severe. -/
def Severity.rank : Severity → Nat
  | .info => 1
  | .warning => 2
  | .error => 3

/-- One message of one part of the program. -/
structure LogLine where
  severity : Severity
  /-- The part of the program that speaks. -/
  source : String
  message : String
  deriving DecidableEq

namespace LogLine

def info (source message : String) : LogLine := ⟨.info, s!"modulegen.{source}", message⟩

def warning (source message : String) : LogLine := ⟨.warning, s!"modulegen.{source}", message⟩

def error (source message : String) : LogLine := ⟨.error, s!"modulegen.{source}", message⟩

/-- The line as it is printed at a time of day: the severity takes eight columns. -/
def render (time : String) (l : LogLine) : String :=
  let name := l.severity.name
  let gap := String.ofList (List.replicate (8 - name.length) ' ')
  s!"{time} │ {name}{gap} │ {l.source} │ {l.message}"

end LogLine

end Scaffold
