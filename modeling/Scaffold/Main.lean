import Scaffold.Command.Perform
import Std.Data.HashMap
import Std.Time.Zoned

/-!
# The program

What a command can look at is read into a disk, the command is performed on it, and what it
changed there is then changed on the real disk. A command is a pure function of what it is told,
so it is performed again after every answer until it has no further question.
-/

namespace Scaffold

/-- The places that a command names, and the working directory. -/
def Command.places (c : Command) : List Path :=
  let stubs := match c with
    | generate _ stubs .. => stubs
    | _ => none
  .here :: [c.project.file, c.project.config, c.project.basePath, stubs].filterMap path?

/-- The places that settings name. -/
def Settings.places (s : Settings) : List Path :=
  [s.root, s.schemaFile, s.backupRoot] ++ s.stubDirectory?.toList

/-- The locations of which none lies below another one. -/
def outermost (places : List Location) : List Location :=
  places.eraseDups.filter fun l ↦ !places.any fun m ↦ m != l && m.isPrefixOf l

/-- The locations on the way to a location, which is not one of them. -/
def wayTo (place : Location) : List Location :=
  (List.range place.length).tail.map (place.take ·)

namespace Main

/-- What the real disk has at a location. -/
def real (place : Location) : String := (Disk.absolute place).toString

/-- Reads one node of the real disk. Links and devices are passed over. -/
def readNode (place : Location) : IO (Option Node) := do
  try
    match (← (← IO.FS.realPath (real place)).symlinkMetadata).type with
    | .dir => return some .dir
    | .file => return some (.file (← IO.FS.readBinFile (real place)))
    | _ => return none
  catch _ => return none

/-- Reads all that is at a location of the real disk and below it. -/
partial def readTree (place : Location) : IO (List (Location × Node)) := do
  match ← readNode place with
  | none => return []
  | some (.file content) => return [(place, .file content)]
  | some .dir =>
    let entries ← (← IO.FS.realPath (real place)).readDir
    let below ← entries.toList.mapM fun e ↦ readTree (place ++ [e.fileName])
    return (place, .dir) :: below.flatten

/-- Reads what is at some places of the real disk, and the directories on the way there. -/
def readDisk (cwd : Location) (places : List Path) : IO Disk := do
  let empty : Disk := ⟨[], cwd⟩
  let places := outermost (places.map empty.resolve)
  let way ← (places.flatMap wayTo).eraseDups.filterMapM fun l ↦ do
    return (← readNode l).map (l, ·)
  let trees ← places.mapM readTree
  return ⟨way ++ trees.flatten, cwd⟩

/-- Reads what a command can look at: what it names itself, and what its settings name. -/
def readScene (cwd : Location) (c : Command) : IO Disk := do
  let d ← readDisk cwd c.places
  match ((Run.loadSettings (Command.path? c.project.config) c.changes).run.run ⟨d, [], []⟩).1 with
  | .error _ => return d
  | .ok settings => readDisk cwd (c.places ++ settings.places)

/-- Changes the real disk from `old` to `new`. -/
def change (old new : Disk) : IO Unit := do
  let before := Std.HashMap.ofList old.nodes
  let after := Std.HashMap.ofList new.nodes
  for (l, n) in old.nodes do
    if n != .dir && (after.get? l).all (· == .dir) then IO.FS.removeFile (real l)
  for (l, n) in old.nodes.mergeSort fun a b ↦ b.1.length ≤ a.1.length do
    if n == .dir && after.get? l != some .dir then IO.FS.removeDir (real l)
  for (l, n) in new.nodes.mergeSort fun a b ↦ a.1.length ≤ b.1.length do
    if before.get? l != some n then
      match n with
      | .dir => IO.FS.createDirAll (real l)
      | .file content => IO.FS.writeBinFile (real l) content

/-- The time on the clock. -/
def now : IO Moment := do
  let t ← Std.Time.PlainDateTime.now
  return ⟨⟨t.year.toInt.toNat, t.month.val.toNat, t.day.val.toNat⟩, t.hour.val.toNat,
    t.minute.val.toNat, t.second.val.toNat⟩

/-- Performs a command with the answers given so far; asks for the next answer until it has no
question left. At the end of the input all questions are answered with no. -/
partial def converse (perform : String → Ending × Disk) (input : String) (shown : Nat) :
    IO (Ending × Disk) := do
  let (ending, disk) := perform input
  match ending.questions.drop shown with
  | [] => return (ending, disk)
  | question :: _ =>
    let out ← IO.getStdout
    out.putStr (Ending.prompt question)
    out.flush
    let line ← (← IO.getStdin).getLine
    if line.isEmpty then
      for question in ending.questions.drop (shown + 1) do out.putStr (Ending.prompt question)
      return (ending, disk)
    converse perform (input ++ line) (shown + 1)

/-- Prints how a program ended. -/
def report (ending : Ending) : IO UInt32 := do
  IO.print ending.answer
  IO.eprint ending.errors
  match ending.code with
  | .ok code => return code.toUInt32
  | .error f =>
    IO.eprintln f.message
    return 1

end Main

end Scaffold

open Scaffold Main in
/-- Runs the command line of the program. -/
def main (args : List String) : IO UInt32 := do
  let moment ← now
  match Invocation.ofTexts args with
  | .error stop => report stop.ending
  | .ok invocation =>
    let cwd := (Path.ofString (← IO.currentDir).toString).parts
    let before ← readScene cwd invocation.command
    let (ending, after) ← converse (invocation.run · moment moment.timeOfDay before) "" 0
    change before after
    report ending
