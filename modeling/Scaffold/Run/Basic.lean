import Scaffold.Log
import Scaffold.Run.Failure

/-!
# Runs

A run works on a scene: the disk, the log, and the questions that were asked. What a failed run
has done stays done.
-/

namespace Scaffold

/-- What a run works on. -/
structure Scene where
  disk : Disk
  log : List LogLine
  /-- The questions asked so far, oldest first. -/
  asked : List String

/-- The answer to a question, which may depend on the questions before it. -/
abbrev Answers := List String → String → Bool

/-- A computation on a scene that may fail. -/
abbrev Run (α : Type) := ExceptT Failure (StateM Scene) α

namespace Run

/-- Writes a line into the log. -/
def say (line : LogLine) : Run Unit := modify fun s ↦ { s with log := s.log ++ [line] }

def sayAll (lines : List LogLine) : Run Unit := modify fun s ↦ { s with log := s.log ++ lines }

/-- Asks a yes or no question. -/
def confirm (answers : Answers) (question : String) : Run Bool := do
  let s ← get
  set { s with asked := s.asked ++ [question] }
  return answers s.asked question

/-- Performs an operation on the disk. -/
def onDisk {α : Type} (op : DiskOp α) : Run α := do
  let s ← get
  let (result, disk) := op.run.run s.disk
  set { s with disk }
  match result with
  | .ok a => return a
  | .error e => throw (.disk e)

/-- Asks the disk. -/
def query {α : Type} (question : Disk → Except DiskError α) : Run α := do
  match question (← get).disk with
  | .ok a => return a
  | .error e => throw (.disk e)

/-- The text of a file. -/
def readText (p : Path) : Run String := do
  match (← get).disk.readText p with
  | .ok s => return s
  | .error (.disk e) => throw (.disk e)
  | .error (.notText e) => throw (.undecodable e)

/-- Takes a result that may be a failure. -/
def lift {α ε : Type} (cause : ε → Failure) (result : Except ε α) : Run α :=
  match result with
  | .ok a => return a
  | .error e => throw (cause e)

/-- Performs a part of a run and goes on after its failures of a kind. -/
def attempt {α : Type} (survives : Failure → Bool) (part : Run α) : Run (Except Failure α) :=
  tryCatch (do return .ok (← part)) fun e ↦ if survives e then return .error e else throw e

end Run

end Scaffold
